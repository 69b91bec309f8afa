import JobOperator.Script
import JobOperator.Store.Error
import JobOperator.Worker.Basic

/-!
# Store calls

The ten things that the operator asks of a store of jobs and workers. A call is a
value, and what it may answer is a type that depends on it, so that a store is a
function on calls and a program over a store is a script of them.

* `StoreCall`, `StoreCall.Answer`: the calls and their answers.
* `StoreScript`: programs over a store.
* `StoreScript.getJob` and so on: the script of a single call.
-/

namespace JobOperator

/-- A call to a store. These are the methods of `ObjectStore`. -/
inductive StoreCall where
  /-- stores a new job, at version one -/
  | createJob (job : Job)
  | getJob (name : String)
  /-- all jobs -/
  | listJobs
  /-- replaces the status of a job, if nobody has written the record since the
  given one was read -/
  | updateStatus (job : Job)
  /-- deletes a job, and its workers with it -/
  | deleteJob (name : String)
  /-- stores a new worker, if its owner is there -/
  | createWorker (launch : Worker.Launch)
  | getWorker (name : String)
  /-- all workers, or those of a job -/
  | listWorkers (owner : Option String)
  | updateWorkerPhase (name : String) (phase : Worker.Phase)
  | deleteWorker (name : String)
  deriving Repr

namespace StoreCall

/-- What a call yields when it succeeds. -/
abbrev Value : StoreCall → Type
  | createJob _ | getJob _ | updateStatus _ => Job
  | listJobs => List Job
  | createWorker _ | getWorker _ | updateWorkerPhase _ _ => Worker
  | listWorkers _ => List Worker
  | deleteJob _ | deleteWorker _ => Unit

/-- What a call is answered. -/
abbrev Answer (call : StoreCall) : Type := Except StoreError call.Value

end StoreCall

/-- A program over a store. -/
abbrev StoreScript (α : Type) : Type := Script StoreCall StoreCall.Answer α

namespace StoreScript

/-- The script of a single call. -/
def call (c : StoreCall) : StoreScript c.Answer := .request c

/-- Stores a new job. -/
def createJob (job : Job) : StoreScript (Except StoreError Job) := call (.createJob job)

/-- Reads a job. -/
def getJob (name : String) : StoreScript (Except StoreError Job) := call (.getJob name)

/-- Reads all jobs. -/
def listJobs : StoreScript (Except StoreError (List Job)) := call .listJobs

/-- Writes the status of a job. -/
def updateStatus (job : Job) : StoreScript (Except StoreError Job) := call (.updateStatus job)

/-- Deletes a job. -/
def deleteJob (name : String) : StoreScript (Except StoreError Unit) := call (.deleteJob name)

/-- Stores a new worker. -/
def createWorker (launch : Worker.Launch) : StoreScript (Except StoreError Worker) :=
  call (.createWorker launch)

/-- Reads a worker. -/
def getWorker (name : String) : StoreScript (Except StoreError Worker) := call (.getWorker name)

/-- Reads all workers, or those of a job. -/
def listWorkers (owner : Option String) : StoreScript (Except StoreError (List Worker)) :=
  call (.listWorkers owner)

/-- Writes the phase of a worker. -/
def updateWorkerPhase (name : String) (phase : Worker.Phase) :
    StoreScript (Except StoreError Worker) :=
  call (.updateWorkerPhase name phase)

/-- Deletes a worker. -/
def deleteWorker (name : String) : StoreScript (Except StoreError Unit) :=
  call (.deleteWorker name)

end StoreScript

end JobOperator
