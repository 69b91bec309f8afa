import JobOperator.Controller.Queue
import JobOperator.Lifecycle.Reconcile

/-!
# The controller's loop

The controller waits for whatever happens next: a name is due, a job is triggered, it
is time to look at all jobs, or a look at a job has ended and says when to come back.
Between two waits it hands out what is due, as long as there are free places.

* `Controller`: how many looks there may be at the same time, and the queue.
* `Controller.begin`: hands out what is due.
* `Controller.Event`, `Controller.receive`: what can happen, and what it does to the
  queue.
* `Controller.deadline`: how long the controller waits if nothing happens.
* `Controller.directive`: what the end of a look, however it ends, says about the next
  one.
-/

namespace JobOperator

/-- The state of the controller's loop. This is what `Controller` keeps while it runs. -/
structure Controller where
  /-- how many looks there may be at the same time; zero counts as one -/
  maxConcurrent : Nat
  queue : WorkQueue := {}
  deriving DecidableEq, Repr, Inhabited

namespace Controller

/-- The number of places. -/
def places (c : Controller) : Nat := max 1 c.maxConcurrent

/-- Hands out the names that are due, as far as there are free places. -/
def begin (c : Controller) (now : Moment) : List String × Controller :=
  let (names, queue) := c.queue.popDue now (c.places - c.queue.inFlight)
  (names, { c with queue })

/-- What the controller waits for. -/
inductive Event where
  /-- all jobs were listed; `none` if that failed -/
  | resynced (jobs : Option (List String))
  /-- somebody wants a job to be looked at -/
  | triggered (job : String)
  /-- a look at a job has ended -/
  | finished (job : String) (directive : Requeue)
  /-- a name has become due -/
  | elapsed
  deriving DecidableEq, Repr

/-- Asks for a job as its last look directs. A delay beyond the reach of the clock
leaves the job to the next resync. -/
def comeBack (queue : WorkQueue) (job : String) (directive : Requeue) (now : Moment) :
    WorkQueue :=
  match directive with
  | .done => queue
  | .now => queue.schedule job now
  | .after delay =>
    match now.after? delay with
    | some due => queue.schedule job due
    | none => queue

/-- Takes in what happened. These are the arms of the controller's `run`. -/
def receive (c : Controller) (event : Event) (now : Moment) : Controller :=
  match event with
  | .resynced (some jobs) =>
    { c with queue := jobs.foldl (fun queue job => queue.schedule job now) c.queue }
  | .resynced none => c
  | .triggered job => { c with queue := c.queue.schedule job now }
  | .finished job directive =>
    { c with queue := comeBack (c.queue.release job) job directive now }
  | .elapsed => c

/-- How long the controller waits if nothing happens; `none` for ever. Without a free
place there is no use in waking up for a name that is due. -/
def deadline (c : Controller) : Option Moment :=
  if c.queue.inFlight < c.places then c.queue.nextDue else none

/-- What the end of a look says about the next one. A look that was cut off counts as an error. This
is what `Completion` reports. -/
def directive (pacing : Pacing) : Option (Except ReconcileError Requeue) → Requeue
  | some (.ok directive) => directive
  | some (.error e) => e.requeue pacing
  | none => pacing.after .default

end Controller

end JobOperator
