import JobOperator.Relational.Statement
import JobOperator.Store.Call

/-!
# The store in a database

Every store call is a script of one statement, or of two: who finds no job to update
asks whether there is one at all.

* `Relational.answer`: the script that answers a call.
-/

namespace JobOperator.Relational

/-- The job in the first of some rows. -/
def firstJob (name : String) : List JobRow → Except StoreError Job
  | row :: _ => row.toJob
  | [] => .error (.notFound .job name)

/-- The worker in the first of some rows. -/
def firstWorker (name : String) : List WorkerRow → Except StoreError Worker
  | row :: _ => row.toWorker
  | [] => .error (.notFound .worker name)

/-- The jobs in some rows. All documents are read before any row is looked at as a
whole. -/
def allJobs (rows : List JobRow) : Except StoreError (List Job) := do
  rows.forM fun row => discard row.readSpec
  rows.mapM JobRow.toJob

/-- The workers in some rows. -/
def allWorkers (rows : List WorkerRow) : Except StoreError (List Worker) := do
  rows.forM fun row => discard row.readSpec
  rows.mapM WorkerRow.toWorker

/-- Executes a statement about a record, and reads what it yields. -/
def about {α : Type} (kind : ObjectKind) (name : String) (s : Statement)
    (read : s.Value → Except StoreError α) : SqlScript (Except StoreError α) := do
  match ← execute s with
  | .ok value => return read value
  | .error refusal => return .error (refusal.toStoreError kind name)

/-- Executes a statement about all records. -/
def overall {α : Type} (s : Statement) (read : s.Value → Except StoreError α) :
    SqlScript (Except StoreError α) := do
  match ← execute s with
  | .ok value => return read value
  | .error refusal => return .error (.transient refusal.text)

/-- Something was deleted. -/
def deleted (kind : ObjectKind) (name : String) (count : Nat) : Except StoreError Unit :=
  if count = 0 then .error (.notFound kind name) else .ok ()

/-- Writes the status of a job. This is `update_status`. -/
def updateStatus (job : Job) : SqlScript (Except StoreError Job) := do
  let s := Statement.updateStatus (.ofStatus job.status) job.name job.uid
    (signed64 job.resourceVersion)
  match ← execute s with
  | .error refusal => return .error (refusal.toStoreError .job job.name)
  | .ok (row :: _) => return row.toJob
  | .ok [] =>
    about .job job.name (.probeJob job.name) fun there =>
      .error (if there then .conflict job.name job.resourceVersion else .notFound .job job.name)

/-- Stores a worker. A missing row means that its owner is not there. This is `create_worker`. -/
def createWorker (clock : Instant) (launch : Worker.Launch) :
    SqlScript (Except StoreError Worker) :=
  let worker := launch.toWorker clock
  about .worker worker.name
    (.insertWorker worker.name worker.spec.toJson worker.phase.word (.ofInstant worker.createdAt)
      worker.owner.name worker.owner.uid)
    fun
    | row :: _ => row.toWorker
    | [] => .error (.notFound .job worker.owner.name)

/-- The script that answers a store call. `clock` is the time at which a new worker counts as
created. These are the methods of `PgStore`. -/
def answer (clock : Instant) : (call : StoreCall) → SqlScript call.Answer
  | .createJob job =>
    about .job job.name
      (.insertJob job.name job.uid (.ofInstant job.createdAt) job.spec.toJson
        (.ofStatus job.status))
      (firstJob job.name)
  | .getJob name => about .job name (.selectJob name) (firstJob name)
  | .listJobs => overall .selectJobs allJobs
  | .updateStatus job => updateStatus job
  | .deleteJob name => about .job name (.deleteJob name) (deleted .job name)
  | .createWorker launch => createWorker clock launch
  | .getWorker name => about .worker name (.selectWorker name) (firstWorker name)
  | .listWorkers owner => overall (.selectWorkers owner) allWorkers
  | .updateWorkerPhase name phase =>
    about .worker name (.updateWorkerPhase phase.word name) (firstWorker name)
  | .deleteWorker name => about .worker name (.deleteWorker name) (deleted .worker name)

end JobOperator.Relational
