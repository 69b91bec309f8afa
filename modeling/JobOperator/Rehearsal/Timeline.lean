import JobOperator.Controller.Loop
import JobOperator.Rehearsal.World

/-!
# The controller on a timeline

The controller's loop runs against the surroundings of a rehearsal while a clock is
moved by hand. Time passes only while everybody waits, so whatever is due happens at
its exact moment, and then the clock jumps to the next one.

* `Rehearsal.Timeline`: the clock, the controller and the looks that are going on.
* `Rehearsal.Timeline.settle`: everything that happens at the present moment.
* `Rehearsal.Timeline.pass`: the clock goes on.
* `Rehearsal.Deed`, `Rehearsal.Timeline.act`: what happens from outside.

A look that reads its job with a delay does all its work when the delay is over. The
dates in the records stand still meanwhile.
-/

namespace JobOperator.Rehearsal

/-- A look that waits for its job to be read. -/
structure Look where
  job : String
  /-- when the job has been read -/
  ready : Moment
  deriving DecidableEq, Repr

/-- The controller on a timeline. -/
structure Timeline where
  now : Moment := ⟨0⟩
  world : World := {}
  /-- the loop, unless it has gone down or was stopped -/
  controller : Option Controller
  /-- there is still somebody who can trigger looks -/
  listening : Bool := true
  /-- when all jobs are looked at next -/
  resyncAt : Moment := ⟨0⟩
  resyncInterval : Delay
  /-- how long it takes to read a job -/
  latency : Delay := ⟨0⟩
  /-- the looks that are going on, the oldest first -/
  looks : List Look := []
  /-- the looks that were begun, the last one first -/
  begun : List (Moment × String) := []

/-- What happens from outside. -/
inductive Deed where
  | sleep (seconds : Nat)
  /-- triggers a look at a job -/
  | notify (job : String)
  /-- nobody is going to trigger looks any more -/
  | close
  /-- stops the loop -/
  | stop
  /-- a call straight to the store -/
  | store (call : StoreCall)
  | fail (fault : Fault)

namespace Timeline

/-- Nothing is slipped into calls. -/
def undisturbed (_ : List Step) (w : World) : World := w

/-- The loop takes in an event. -/
def receive (t : Timeline) (event : Controller.Event) : Timeline :=
  { t with controller := t.controller.map fun c => c.receive event t.now }

/-- The moment a delay from now; a delay beyond the reach of the clock never ends. -/
def later (t : Timeline) (delay : Delay) : Moment := ⟨t.now.nanos + delay.nanos⟩

/-- Begins a look at each of some jobs. -/
def beginLooks (t : Timeline) (jobs : List String) : Timeline :=
  { t with
    looks := t.looks ++ jobs.map fun job => ⟨job, t.later t.latency⟩
    begun := (jobs.map fun job => (t.now, job)).reverse ++ t.begun }

/-- The loop hands out what is due. -/
def handOut (t : Timeline) : Timeline :=
  match t.controller with
  | none => t
  | some c =>
    let (jobs, c) := c.begin t.now
    { t with controller := some c }.beginLooks jobs

/-- The loop lists all jobs. A crash brings it down. -/
def resync (t : Timeline) : Timeline :=
  let (answer, world) := t.world.answer undisturbed .listJobs
  let t := { t with world, resyncAt := t.later t.resyncInterval }
  match answer with
  | none => { t with controller := none }
  | some (.ok jobs) => t.receive (.resynced (some (jobs.map (·.name))))
  | some (.error _) => t.receive (.resynced none)

/-- Does the work of a look, and tells the loop. -/
def finish (t : Timeline) (look : Look) : Timeline :=
  let reconciler := t.world.reconciler
  let (outcome, world) := t.world.onStore undisturbed (reconciler.reconcile look.job World.clock)
  { t with world }.receive (.finished look.job (Controller.directive reconciler.pacing outcome))

/-- Takes the oldest look that is ready. -/
def takeReady (now : Moment) : List Look → Option (Look × List Look)
  | [] => none
  | look :: looks =>
    if look.ready ≤ now then some (look, looks)
    else (takeReady now looks).map fun (found, rest) => (found, look :: rest)

/-- One thing that happens at the present moment; `none` if nothing does. -/
def happen (t : Timeline) : Option Timeline :=
  if t.controller.isSome && t.resyncAt ≤ t.now then some t.resync.handOut
  else (takeReady t.now t.looks).map fun (look, looks) => ({ t with looks }.finish look).handOut

/-- Everything that happens at the present moment. -/
def settle : Timeline → (fuel : Nat) → Timeline
  | t, 0 => t
  | t, fuel + 1 =>
    match t.happen with
    | some t => t.settle fuel
    | none => t

/-- The moments for which somebody waits. -/
def awaited (t : Timeline) : List Moment :=
  (match t.controller with
    | some c => t.resyncAt :: c.deadline.toList
    | none => [])
  ++ t.looks.map (·.ready)

/-- The next moment at which something happens. -/
def nextMoment (t : Timeline) : Option Moment := WorkQueue.earliest? t.awaited

/-- Lets the clock go on to a moment. -/
def passUntil : (fuel : Nat) → Moment → Timeline → Timeline
  | 0, _, t => t
  | fuel + 1, goal, t =>
    let t := t.handOut.settle (fuel + 1)
    match t.nextMoment with
    | some next =>
      if next ≤ goal then passUntil fuel goal { t with now := next } else { t with now := goal }
    | none => { t with now := goal }

/-- The number of things that can happen in a second. -/
def bustle : Nat := 10000

/-- Lets the clock go on for a while. -/
def pass (t : Timeline) (delay : Delay) : Timeline :=
  passUntil (bustle * (delay.seconds + 1)) (t.later delay) t

/-- What happens from outside, without the time it takes. -/
def act (t : Timeline) : Deed → Timeline
  | .sleep seconds => t.pass (.ofSeconds seconds)
  | .notify job => if t.listening then t.receive (.triggered job) else t
  | .close => { t with listening := false }
  | .stop => { t with controller := none }
  | .store call =>
    { t with world := { t.world with store := (t.world.store.answer World.clock call).2 } }
  | .fail fault => { t with world := { t.world with faults := t.world.faults ++ [fault] } }

/-- What happens from outside, and a millisecond for what follows from it. The looks
that were begun since the last deed are counted anew. -/
def step (t : Timeline) (deed : Deed) : Timeline :=
  ({ t with begun := [] }.act deed).pass ⟨Moment.nanosPerMilli⟩

/-- What there is to see after each deed. -/
def steps : List Deed → Timeline → List Timeline
  | [], _ => []
  | deed :: deeds, t => t.step deed :: steps deeds (t.step deed)

/-- The second of a moment, rounded to the nearest one. -/
def secondOf (t : Moment) : Int := (t.nanos + nanosPerSecond / 2) / nanosPerSecond

/-- The looks that were begun, with their seconds, in order of time and name. -/
def looksBegun (t : Timeline) : List (Int × String) :=
  (t.begun.map fun (moment, job) => (secondOf moment, job)).mergeSort
    fun a b => a.1 < b.1 || (a.1 = b.1 && a.2 ≤ b.2)

/-- A controller at the start of its timeline, over a store that holds some jobs. A
loop that is to look at all jobs without pause goes down at once. -/
def start (world : World) (jobs : List Job) (maxConcurrent : Nat) (resyncInterval latency : Delay) :
    Timeline where
  world := { world with
    store := jobs.foldl (fun store job => (store.createJob job).2) world.store }
  controller := if resyncInterval.nanos = 0 then none else some { maxConcurrent }
  resyncInterval := resyncInterval
  latency := latency

end Timeline

end JobOperator.Rehearsal
