import JobOperator.Lifecycle.Retention
import JobOperator.Lifecycle.Step
import JobOperator.Store.Call

/-!
# A look at a job

One invocation reads a job, looks at its worker, takes one step and says when it
wants to be called again. All progress is in the store, so an invocation may be
repeated, interleaved with another one for the same job, or cut short at any call.

* `ReconcileError`: why an invocation gives up, and when it wants another try.
* `Reconciler`: what all invocations have in common.
* `Reconciler.reconcile`: the script of an invocation.

The order of the calls is what makes it safe. A worker that this invocation created
is kept only if the status that names it is written against the record that was
read; a failed worker is deleted only after the retry has been written.
-/

namespace JobOperator

/-- Why an invocation gives up (`ReconcileError`). -/
inductive ReconcileError where
  /-- another writer came first -/
  | conflict (job : String)
  /-- the store refused a call -/
  | store (cause : StoreError)
  deriving DecidableEq, Repr

namespace ReconcileError

/-- The wording of an error. -/
def message : ReconcileError → String
  | conflict job => "job " ++ job ++ " was modified concurrently"
  | store cause => cause.message

/-- When to try again: at once if only another writer was in the way. -/
def requeue (pacing : Pacing) : ReconcileError → Requeue
  | conflict _ => .now
  | store _ => pacing.after .default

end ReconcileError

/-- What all invocations have in common. -/
structure Reconciler where
  template : Worker.Template := {}
  pacing : Pacing := {}
  deriving DecidableEq, Repr, Inhabited

/-- What asking for the worker of the current attempt came to. -/
inductive Creation where
  /-- this invocation created the worker of this name -/
  | created (name : String)
  /-- the worker was there already -/
  | adopted
  /-- the job is gone -/
  | ownerGone
  deriving DecidableEq, Repr

namespace Reconciler

open StoreScript

/-- Deletes a worker, which need not be there any more (`delete_worker`). -/
def removeWorker (name : String) : StoreScript (Except ReconcileError Unit) := do
  match ← deleteWorker name with
  | .ok _ => return .ok ()
  | .error e => return if e.isNotFound then .ok () else .error (.store e)

/-- Deletes workers one after another, up to the first one that cannot be deleted. This is the loop
of `finalize` and of `sweep_superseded`. -/
def removeWorkers : List String → StoreScript (Except ReconcileError Unit)
  | [] => return .ok ()
  | name :: names => do
    match ← removeWorker name with
    | .ok _ => removeWorkers names
    | .error e => return .error e

/-- The worker belongs to an attempt that the job has moved past (the test of `sweep_superseded`).
-/
def superseded (job : Job) (worker : Worker) : Bool :=
  (Worker.attemptOf? job.name worker.name).any (· < job.status.retries)

/-- Deletes the workers of attempts that the job has moved past (`sweep_superseded`). -/
def sweep (job : Job) : StoreScript (Except ReconcileError Unit) := do
  match ← listWorkers (some job.name) with
  | .ok workers => removeWorkers ((workers.filter (superseded job)).map (·.name))
  | .error e => return .error (.store e)

/-- Looks up the worker that the job names (`observe`). -/
def observe (job : Job) : StoreScript (Except ReconcileError Observation) := do
  match job.status.workerRef with
  | none => return .ok .missing
  | some name =>
    match ← getWorker name with
    | .ok worker => return .ok (.found worker.phase)
    | .error e => return if e.isNotFound then .ok .missing else .error (.store e)

/-- Asks for the worker of the current attempt (`create_worker`). -/
def createOrAdopt (r : Reconciler) (job : Job) :
    StoreScript (Except ReconcileError Creation) := do
  match ← createWorker (r.template.launch job) with
  | .ok worker => return .ok (.created worker.name)
  | .error e =>
    return if e.isAlreadyExists then .ok .adopted
      else if e.isNotFound then .ok .ownerGone
      else .error (.store e)

/-- Carries out what a step does to the worker once the status is written (the end of `apply`). -/
def finish (step : Step) : StoreScript (Except ReconcileError Requeue) := do
  match step.effect with
  | .delete name =>
    match ← removeWorker name with
    | .ok _ => return .ok step.requeue
    | .error e => return .error e
  | _ => return .ok step.requeue

/-- Writes the status of a step, against the job that was read. If another writer came first, a
worker that this invocation created is taken back; should that fail, the worker is left to a later
sweep. This is the second half of `apply`, with `roll_back_worker`. -/
def write (job : Job) (step : Step) (created : Option String) :
    StoreScript (Except ReconcileError Requeue) := do
  if created.isSome || step.status ≠ job.status then
    match ← updateStatus { job with status := step.status } with
    | .ok _ => finish step
    | .error e =>
      if e.isNotFound then return .ok .done
      else if e.isConflict then
        match created with
        | some worker => let _ ← removeWorker worker
        | none => pure ()
        return .error (.conflict job.name)
      else return .error (.store e)
  else finish step

/-- Carries out a step: the worker, then the status, then the worker of the attempt before. This is
`apply`. -/
def apply (r : Reconciler) (job : Job) (step : Step) :
    StoreScript (Except ReconcileError Requeue) := do
  match step.effect with
  | .create =>
    match ← r.createOrAdopt job with
    | .ok (.created name) => write job step (some name)
    | .ok .adopted => write job step none
    | .ok .ownerGone => return .ok .done
    | .error e => return .error e
  | _ => write job step none

/-- Deletes an expired job, which need not be there any more (the second half of `finalize`). -/
def collect (job : Job) (retention : Retention) (now : Instant) :
    StoreScript (Except ReconcileError Requeue) := do
  match retention with
  | .expired =>
    match ← deleteJob job.name with
    | .ok _ => return .ok (retention.requeue now)
    | .error e =>
      return if e.isNotFound then .ok (retention.requeue now) else .error (.store e)
  | _ => return .ok (retention.requeue now)

/-- Housekeeping for a finished job: its workers first, then the job itself once its time has come.
This is `finalize`. -/
def finalize (job : Job) (now : Instant) : StoreScript (Except ReconcileError Requeue) := do
  match ← listWorkers (some job.name) with
  | .error e => return .error (.store e)
  | .ok workers =>
    match ← removeWorkers (workers.map (·.name)) with
    | .error e => return .error e
    | .ok _ => collect job (job.retention now) now

/-- Looks at the worker and takes a step (the end of `reconcile_at`). -/
def proceed (r : Reconciler) (job : Job) (now : Instant) :
    StoreScript (Except ReconcileError Requeue) := do
  match ← observe job with
  | .error e => return .error e
  | .ok seen => r.apply job (job.step seen now r.pacing)

/-- Handles a job that has not finished. A job past its deadline fails unseen; a job that waits for
a worker has the workers of earlier attempts swept away first. This is `reconcile_at` from the
deadline on. -/
def drive (r : Reconciler) (job : Job) (now : Instant) :
    StoreScript (Except ReconcileError Requeue) := do
  if job.pastDeadline now then r.apply job (job.step .missing now r.pacing)
  else if job.status.phase = .pending then
    match ← sweep job with
    | .error e => return .error e
    | .ok _ => r.proceed job now
  else r.proceed job now

/-- One invocation for the job of a name, as if the clock read `now` (`reconcile_at`). -/
def reconcile (r : Reconciler) (name : String) (now : Instant) :
    StoreScript (Except ReconcileError Requeue) := do
  match ← getJob name with
  | .error e => return if e.isNotFound then .ok .done else .error (.store e)
  | .ok job => if job.status.phase.terminal then finalize job now else r.drive job now

end Reconciler

end JobOperator
