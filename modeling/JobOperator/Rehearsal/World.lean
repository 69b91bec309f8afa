import JobOperator.Api.Routes
import JobOperator.Container.Launcher
import JobOperator.Lifecycle.Reconcile
import JobOperator.Rehearsal.Fault
import JobOperator.Rehearsal.Host
import JobOperator.Store.Memory

/-!
# The surroundings of a rehearsal

The operator's scripts run against a store in memory and a stand-in for the container
host. Every store call is logged, and at either side of it something may happen that
was planned before: other steps are slipped in, or a fault is met. A crash refuses the
script its answer, which cuts it short.

* `Rehearsal.Step`: what a rehearsal can do, or plan.
* `Rehearsal.World`: the surroundings.
* `Rehearsal.World.answer`: what a store call of the operator is answered.
* `Rehearsal.World.onStore`, `Rehearsal.World.onHost`, `Rehearsal.World.onBoth`: the
  operator's scripts, run in the surroundings.
-/

namespace JobOperator.Rehearsal

/-- A request to the container host. -/
inductive HostRequest where
  | check
  | run (worker : Worker)
  | inspect (container : String)
  | remove (container : String)
  | list
  deriving Repr

/-- A step of a rehearsal. -/
inductive Step where
  /-- a call straight to the store, past all plans -/
  | store (call : StoreCall)
  /-- replaces the status of a job, whatever it is -/
  | setStatus (job : String) (status : Job.Status)
  /-- a look at a job as if the clock read `now` -/
  | reconcile (job : String) (now : Instant)
  /-- plans a fault -/
  | fail (fault : Fault)
  /-- plans steps that are slipped into a call -/
  | hook (operation : StoreOperation) (side : Side) (steps : List Step)
  /-- remembers a job as it is stored -/
  | snapshot (job : String)
  /-- plans that the next reading of a job gives the remembered one -/
  | stale
  /-- a client's request -/
  | http (request : Api.Request)
  /-- sets or removes a container -/
  | container (name : String) (state : Option ContainerState)
  /-- scripts answers of the container host -/
  | script (scripted : ScriptedOutcome)
  /-- a request to the container host alone -/
  | host (request : HostRequest)
  /-- a cycle of the launcher -/
  | sync
  /-- the launcher from its start; it is stopped after a number of undisturbed cycles,
  or else it must not get as far as its first one -/
  | launch (cycles : Option Nat)
  deriving Inhabited

/-- What the container host answers to a request. -/
inductive HostValue where
  | nothing
  | state (state : Option ContainerState)
  | names (names : List String)
  deriving Repr

/-- What a step came to. A script that was cut short has no result. -/
inductive Report where
  /-- there is nothing to tell -/
  | done
  | stored (call : StoreCall) (answer : call.Answer)
  | reconciled (outcome : Option (Except ReconcileError Requeue))
  | responded (response : Option Api.Response) (notified : List String)
  | hosted (answer : Except Podman.Error HostValue) (executed : List Podman.Invocation)
  | synced (outcome : Option (Except Launcher.SyncError Unit)) (notified : List String)
      (executed : List Podman.Invocation)
  | launched (outcome : Option (Except Podman.Error Unit)) (notified : List String)
      (executed : List Podman.Invocation)

/-- Steps that are to be slipped into a call. -/
structure Hook where
  operation : StoreOperation
  side : Side
  steps : List Step

/-- The surroundings of the operator in a rehearsal. -/
structure World where
  reconciler : Reconciler := {}
  /-- the name of the container host's program -/
  binary : String := "podman"
  store : MemoryStore := {}
  host : Host := {}
  faults : List Fault := []
  hooks : List Hook := []
  /-- the job that was remembered last -/
  remembered : Option Job := none
  /-- the job that the next reading gives -/
  stale : Option Job := none
  /-- the calls of the current step, the last one first -/
  calls : List StoreCall := []
  /-- what slipped-in steps came to in the current step, the last one first -/
  slipped : List Report := []
  /-- the names that the controller was told, the last one first -/
  notified : List String := []
  /-- how many jobs were submitted -/
  births : Nat := 0
  deriving Inhabited

namespace World

/-- The time at which workers are created in a rehearsal. -/
def clock : Instant := .ofSecond 4102444800

/-- The identity of the `n`-th job that is submitted. No other record is likely to have
its uid, or such an odd time. -/
def birth (n : Nat) : Api.Birth where
  uid := .ofNat (0xb17b5eed000000000000000000000000 + n)
  createdAt := .ofNanos (4102444800271828182 + n * nanosPerSecond)

/-- Logs a call of the operator. Only a submission creates jobs. -/
def log (w : World) (call : StoreCall) : World :=
  { w with
    calls := call :: w.calls
    births := match call with
      | .createJob _ => w.births + 1
      | _ => w.births }

/-- Takes the first hook for a point. -/
def takeHook (operation : StoreOperation) (side : Side) :
    List Hook → Option (List Step) × List Hook
  | [] => (none, [])
  | h :: hooks =>
    if h.operation = operation && h.side = side then (some h.steps, hooks)
    else
      let (steps, hooks) := takeHook operation side hooks
      (steps, h :: hooks)

/-- Slips in what is planned for a point. -/
def slipIn (play : List Step → World → World) (operation : StoreOperation) (side : Side)
    (w : World) : World :=
  match takeHook operation side w.hooks with
  | (some steps, hooks) => play steps { w with hooks }
  | (none, _) => w

/-- Meets the faults that are planned for a point. -/
def meet (w : World) (operation : StoreOperation) (side : Side) : Option Failure × World :=
  let (failure, faults) := Rehearsal.meet operation side w.faults
  (failure, { w with faults })

/-- Does a call. A job that is planned to be stale is read instead of the stored one,
once. -/
def act (w : World) (call : StoreCall) : call.Answer × World :=
  match call, w.stale with
  | .getJob _, some job => (.ok job, { w with stale := none })
  | call, _ =>
    let (answer, store) := w.store.answer clock call
    (answer, { w with store })

/-- What a call of the operator is answered; `none` if the operator goes down. `play`
runs the steps that are slipped in. -/
def answer (play : List Step → World → World) (call : StoreCall) (w : World) :
    Option call.Answer × World :=
  let w := slipIn play call.operation .before (w.log call)
  match w.meet call.operation .before with
  | (some failure, w) => ((failure.error call).map .error, w)
  | (none, w) =>
    match w.act call with
    | (.error e, w) => (some (.error e), w)
    | (.ok value, w) =>
      let w := slipIn play call.operation .after w
      match w.meet call.operation .after with
      | (some failure, w) => ((failure.error call).map .error, w)
      | (none, w) => (some (.ok value), w)

/-- Executes a command line. -/
def execute (arguments : Podman.Invocation) (w : World) : Podman.Outcome × World :=
  let (outcome, host) := w.host.execute arguments
  (outcome, { w with host })

/-- Runs a script over the store. -/
def onStore {α : Type} (play : List Step → World → World) (s : StoreScript α) (w : World) :
    Option α × World :=
  s.run (answer play) w

/-- Runs a script over the container host. -/
def onHost {α : Type} (s : Podman.HostScript α) (w : World) : α × World :=
  s.perform execute w

/-- What a cycle of the launcher is answered. -/
def answerBoth (play : List Step → World → World) :
    (ask : Launcher.Ask) → World → Option (Launcher.Reply ask) × World
  | .store call, w => answer play call w
  | .host arguments, w => let (outcome, w) := w.execute arguments; (some outcome, w)
  | .notify job, w => (some (), { w with notified := job :: w.notified })

/-- Runs a script of the launcher. -/
def onBoth {α : Type} (play : List Step → World → World) (s : Launcher.SyncScript α)
    (w : World) : Option α × World :=
  s.run (answerBoth play) w

/-- The names that the controller was told since it was last asked, each once, in the
order of their first occurrence. -/
def takeNotified (w : World) : List String × World :=
  (w.notified.reverse.eraseDups, { w with notified := [] })

/-- The command lines that were executed since it was last asked. -/
def takeExecuted (w : World) : List Podman.Invocation × World :=
  (w.host.executed.reverse, { w with host := { w.host with executed := [] } })

end World

end JobOperator.Rehearsal
