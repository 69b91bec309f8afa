import JobOperator.Container.Podman
import JobOperator.Store.Call

/-!
# Keeping containers in step with workers

One cycle lists the workers and then the containers. Every worker that waits gets a
container, the state of a worker's container becomes the worker's phase, and a
container that belongs to no listed worker is removed. Whatever happens to one
worker or container, the others have their turn.

* `Launcher.Ask`: what a cycle asks for: store calls, command lines of the container
  host, and that the controller be told of a job.
* `Launcher.SyncError`: why a cycle ends early.
* `Launcher.syncWorker`, `Launcher.sync`: the scripts for one worker and for a cycle.
-/

namespace JobOperator.Launcher

/-- What a cycle asks its surroundings for. -/
inductive Ask where
  | store (call : StoreCall)
  | host (arguments : Podman.Invocation)
  /-- the controller is told that a job has changed -/
  | notify (job : String)
  deriving Repr

/-- What a cycle is answered. -/
abbrev Reply : Ask → Type
  | .store call => call.Answer
  | .host _ => Podman.Outcome
  | .notify _ => Unit

/-- A program over a store, a container host and a controller. -/
abbrev SyncScript (α : Type) : Type := Script Ask Reply α

/-- The script of a single question. -/
def ask (a : Ask) : SyncScript (Reply a) := .request a

/-- A program over a store alone. -/
def onStore {α : Type} (s : StoreScript α) : SyncScript α :=
  s.expand fun call => ask (.store call)

/-- A program over the container host alone. -/
def onHost {α : Type} (s : Podman.HostScript α) : SyncScript α :=
  s.expand fun arguments => ask (.host arguments)

/-- Tells the controller of a job. -/
def notify (job : String) : SyncScript Unit := ask (.notify job)

/-- Why a cycle ends early. -/
inductive SyncError where
  | workersNotListed (cause : StoreError)
  | containersNotListed (cause : Podman.Error)
  deriving DecidableEq, Repr

/-- The wording of an error, without its cause. -/
def SyncError.message : SyncError → String
  | workersNotListed _ => "Failed to list workers"
  | containersNotListed _ => "Failed to list managed containers"

/-- The phase to record for a worker, if there is anything to record. A worker that waits and has no
container is launched; it fails if that does not succeed. A worker that was running and has lost its
container has failed. This is the first half of `sync_worker`. -/
def observedPhase (worker : Worker) : SyncScript (Option Worker.Phase) := do
  match ← onHost (Podman.inspect worker.name) with
  | .error _ => return none
  | .ok (some state) => return some state.workerPhase
  | .ok none =>
    match worker.phase with
    | .pending =>
      match ← onHost (Podman.run worker) with
      | .ok _ => return none
      | .error _ => return some .failed
    | .running => return some .failed
    | .succeeded | .failed => return none

/-- Brings the record of a worker and its container into step (`sync_worker`). -/
def syncWorker (worker : Worker) : SyncScript Unit := do
  match ← observedPhase worker with
  | none => return ()
  | some phase =>
    if phase = worker.phase then return ()
    else
      match ← onStore (StoreScript.updateWorkerPhase worker.name phase) with
      | .ok _ => notify worker.owner.name
      | .error _ => return ()

/-- Brings workers into step, one after another (the first loop of `sync_once`). -/
def syncWorkers : List Worker → SyncScript Unit
  | [] => return ()
  | worker :: workers => do
    syncWorker worker
    syncWorkers workers

/-- Removes containers, one after another (the second loop of `sync_once`). -/
def removeContainers : List String → SyncScript Unit
  | [] => return ()
  | name :: names => do
    let _ ← onHost (Podman.remove name)
    removeContainers names

/-- One cycle (`sync_once`). -/
def sync : SyncScript (Except SyncError Unit) := do
  match ← onStore (StoreScript.listWorkers none) with
  | .error e => return .error (.workersNotListed e)
  | .ok workers =>
    syncWorkers workers
    match ← onHost Podman.listManaged with
    | .error e => return .error (.containersNotListed e)
    | .ok names =>
      removeContainers (names.filter fun name => workers.all fun w => w.name ≠ name)
      return .ok ()

/-- A number of cycles; the error of a cycle does not keep the next one from its turn. This is the
loop of the launcher's `run`. -/
def syncRepeatedly : Nat → SyncScript Unit
  | 0 => return ()
  | n + 1 => do
    let _ ← sync
    syncRepeatedly n

/-- Starts up and goes through a number of cycles, if the container host works. `binary` is the name
of its program. This is the launcher's `run`. -/
def runCycles (binary : String) (cycles : Nat) : SyncScript (Except Podman.Error Unit) := do
  match ← onHost (Podman.checkAvailable binary) with
  | .error e => return .error e
  | .ok _ =>
    syncRepeatedly cycles
    return .ok ()

end JobOperator.Launcher
