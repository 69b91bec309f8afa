import JobOperator.Rehearsal.World

/-!
# Rehearsals of the operator

A session is a list of steps. Each is played in the surroundings that the steps before
it have left, and what it came to is told together with the calls that the operator
made in it, what was slipped in, and the surroundings afterwards.

* `Rehearsal.perform`: one step.
* `Rehearsal.Scene`, `Rehearsal.play`: what a step came to, and all steps in turn.

A step may slip steps into another one, and these may do the same. Every hook is used
up when it is met, so the depth of this is bounded by the number of steps.
-/

namespace JobOperator.Rehearsal

open World

/-- Plays a request to the container host. -/
def request (w : World) : HostRequest → Except Podman.Error HostValue × World
  | .check => let (answer, w) := w.onHost (Podman.checkAvailable w.binary)
    (answer.map fun _ => .nothing, w)
  | .run worker => let (answer, w) := w.onHost (Podman.run worker)
    (answer.map fun _ => .nothing, w)
  | .inspect container => let (answer, w) := w.onHost (Podman.inspect container)
    (answer.map .state, w)
  | .remove container => let (answer, w) := w.onHost (Podman.remove container)
    (answer.map fun _ => .nothing, w)
  | .list => let (answer, w) := w.onHost Podman.listManaged
    (answer.map .names, w)

/-- A call straight to the store. -/
def direct (w : World) (call : StoreCall) : Report × World :=
  let (answer, store) := w.store.answer clock call
  (.stored call answer, { w with store })

/-- Replaces the status of a job. -/
def setStatus (w : World) (name : String) (status : Job.Status) : Report × World :=
  match w.store.getJob name with
  | .ok job => direct w (.updateStatus { job with status })
  | .error e => (.stored (.getJob name) (.error e), w)

/-- Sets or removes a container. -/
def setContainer (w : World) (name : String) (state : Option ContainerState) : World :=
  let containers := match state with
    | some state => w.host.containers.insert name state
    | none => w.host.containers.erase name
  { w with host := { w.host with containers } }

/-- The launcher from its start. A crash behind all planned faults ends it. -/
def launch (play : List Step → World → World) (w : World) (cycles : Option Nat) :
    Report × World :=
  let stop := cycles.toList.map fun n => (⟨.listWorkers, .before, .crash, n, 1⟩ : Fault)
  let w := { w with faults := w.faults ++ stop }
  let (outcome, w) := w.onBoth play (Launcher.runCycles w.binary (patience w.faults))
  let (notified, w) := w.takeNotified
  let (executed, w) := w.takeExecuted
  (.launched outcome notified executed, w)

/-- Plays a step. `depth` bounds how deep steps are slipped into one another. -/
def perform : (depth : Nat) → Step → World → Report × World
  | depth, step, w =>
    let play : List Step → World → World := match depth with
      | 0 => fun _ w => w
      | depth + 1 => fun steps w => steps.foldl (fun w step =>
        let (report, w) := perform depth step w
        { w with slipped := report :: w.slipped }) w
    match step with
    | .store call => direct w call
    | .setStatus job status => setStatus w job status
    | .reconcile job now =>
      let (outcome, w) := w.onStore play (w.reconciler.reconcile job now)
      (.reconciled outcome, w)
    | .fail fault => (.done, { w with faults := w.faults ++ [fault] })
    | .hook operation side steps =>
      (.done, { w with hooks := w.hooks ++ [⟨operation, side, steps⟩] })
    | .snapshot job =>
      match w.store.getJob job with
      | .ok found => (.done, { w with remembered := some found })
      | .error e => (.stored (.getJob job) (.error e), w)
    | .stale => (.done, { w with stale := w.remembered })
    | .http request =>
      let (response, w) := w.onStore play (Api.handle request (birth (w.births + 1)))
      let w := { w with notified := (response.bind (·.notified)).toList ++ w.notified }
      let (notified, w) := w.takeNotified
      (.responded response notified, w)
    | .container name state => (.done, setContainer w name state)
    | .script scripted =>
      (.done, { w with host := { w.host with scripted := w.host.scripted ++ [scripted] } })
    | .host asked =>
      let (answer, w) := request w asked
      let (executed, w) := w.takeExecuted
      (.hosted answer executed, w)
    | .sync =>
      let (outcome, w) := w.onBoth play Launcher.sync
      let (notified, w) := w.takeNotified
      let (executed, w) := w.takeExecuted
      (.synced outcome notified executed, w)
    | .launch cycles => launch play w cycles

/-- What there is to tell of a step. -/
structure Scene where
  report : Report
  /-- the calls that the operator made, in order -/
  calls : List StoreCall
  /-- what slipped-in steps came to, in order -/
  slipped : List Report
  /-- the surroundings afterwards -/
  world : World

mutual
/-- The number of steps that a step consists of. -/
def Step.size : Step → Nat
  | .hook _ _ steps => sizeAll steps + 1
  | _ => 1
/-- The number of steps that steps consist of. -/
def sizeAll : List Step → Nat
  | [] => 0
  | step :: steps => step.size + sizeAll steps
end

/-- Plays a step as one of its own. -/
def scene (depth : Nat) (w : World) (step : Step) : Scene × World :=
  let (report, w) := perform depth step { w with calls := [], slipped := [] }
  (⟨report, w.calls.reverse, w.slipped.reverse, w⟩, w)

/-- Plays steps one after another. -/
def scenes (depth : Nat) : List Step → World → List Scene
  | [], _ => []
  | step :: steps, w =>
    let (told, w) := scene depth w step
    told :: scenes depth steps w

/-- Plays a session. -/
def play (steps : List Step) (w : World) : List Scene := scenes (sizeAll steps) steps w

end JobOperator.Rehearsal
