import JobOperator.Store.Call

/-!
# Kinds of store calls

* `StoreOperation`: what a call does, without what it does it to.
* `StoreCall.operation`, `StoreCall.subject`: the two halves of a call, as they are
  written to a log.
* `StoreCall.objectKind`: the kind of the record that a call is about.
-/

namespace JobOperator

/-- What a call to a store does. -/
inductive StoreOperation where
  | createJob
  | getJob
  | listJobs
  | updateStatus
  | deleteJob
  | createWorker
  | getWorker
  | listWorkers
  | updateWorkerPhase
  | deleteWorker
  deriving DecidableEq, Repr

namespace StoreOperation

/-- All operations. -/
def all : List StoreOperation :=
  [createJob, getJob, listJobs, updateStatus, deleteJob, createWorker, getWorker, listWorkers,
    updateWorkerPhase, deleteWorker]

/-- The word for an operation. -/
def word : StoreOperation → String
  | createJob => "create_job"
  | getJob => "get_job"
  | listJobs => "list_jobs"
  | updateStatus => "update_status"
  | deleteJob => "delete_job"
  | createWorker => "create_worker"
  | getWorker => "get_worker"
  | listWorkers => "list_workers"
  | updateWorkerPhase => "update_worker_phase"
  | deleteWorker => "delete_worker"

/-- The operation that a word stands for. -/
def ofWord? (word : String) : Option StoreOperation := all.find? fun op => op.word = word

@[simp] theorem ofWord?_word (op : StoreOperation) : ofWord? op.word = some op := by
  cases op <;> decide

end StoreOperation

namespace StoreCall

/-- What a call does. -/
def operation : StoreCall → StoreOperation
  | createJob _ => .createJob
  | getJob _ => .getJob
  | listJobs => .listJobs
  | updateStatus _ => .updateStatus
  | deleteJob _ => .deleteJob
  | createWorker _ => .createWorker
  | getWorker _ => .getWorker
  | listWorkers _ => .listWorkers
  | updateWorkerPhase _ _ => .updateWorkerPhase
  | deleteWorker _ => .deleteWorker

/-- The name that a call is about. -/
def subject : StoreCall → Option String
  | createJob job | updateStatus job => some job.name
  | getJob name | deleteJob name => some name
  | createWorker launch => some launch.name
  | getWorker name | updateWorkerPhase name _ | deleteWorker name => some name
  | listJobs => none
  | listWorkers owner => owner

/-- The kind of the record that a call is about. To create a worker or to list some is
an affair of their owner. -/
def objectKind : StoreCall → ObjectKind
  | getWorker _ | updateWorkerPhase _ _ | deleteWorker _ => .worker
  | _ => .job

/-- The kind of the record whose name a call may find taken. -/
def namedKind : StoreCall → ObjectKind
  | createWorker _ => .worker
  | call => call.objectKind

/-- The version that a call writes against; zero if it writes against none. -/
def version : StoreCall → UInt64
  | createJob job | updateStatus job => job.resourceVersion
  | _ => 0

end StoreCall

end JobOperator
