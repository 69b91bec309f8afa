import JobOperator.Store.Call

/-!
# The store in memory

Two tables and a function that answers every call. The store holds no worker whose
owner is not there: a worker is only stored under a job with the identity that it
names, and deleting that job takes the worker with it.

* `MemoryStore`: the tables.
* `MemoryStore.answer`: the answer to a call, and the tables after it.
-/

namespace JobOperator

/-- Jobs and workers, each under its name. -/
structure MemoryStore where
  jobs : Table Job := ∅
  workers : Table Worker := ∅
  deriving DecidableEq, Repr, Inhabited

namespace MemoryStore

/-- Stores a job at version one, unless its name is taken (`create_job`). -/
def createJob (m : MemoryStore) (job : Job) : Except StoreError Job × MemoryStore :=
  if m.jobs.contains job.name then (.error (.alreadyExists .job job.name), m)
  else
    let stored := { job with resourceVersion := 1 }
    (.ok stored, { m with jobs := m.jobs.insert job.name stored })

/-- Reads a job (`get_job`). -/
def getJob (m : MemoryStore) (name : String) : Except StoreError Job :=
  match m.jobs.get? name with
  | some job => .ok job
  | none => .error (.notFound .job name)

/-- Replaces the status of a job if the stored record has the identity and the version of the given
one, and counts the version up. This is `update_status`. -/
def updateStatus (m : MemoryStore) (job : Job) : Except StoreError Job × MemoryStore :=
  match m.jobs.get? job.name with
  | none => (.error (.notFound .job job.name), m)
  | some stored =>
    if stored.resourceVersion = job.resourceVersion ∧ stored.uid = job.uid then
      let written :=
        { stored with status := job.status, resourceVersion := stored.resourceVersion + 1 }
      (.ok written, { m with jobs := m.jobs.insert job.name written })
    else (.error (.conflict job.name job.resourceVersion), m)

/-- Deletes a job and the workers that this incarnation owns. This is `delete_job`. -/
def deleteJob (m : MemoryStore) (name : String) : Except StoreError Unit × MemoryStore :=
  match m.jobs.get? name with
  | none => (.error (.notFound .job name), m)
  | some job =>
    let workers := m.workers.filter fun _ w => w.owner.uid ≠ job.uid
    (.ok (), { jobs := m.jobs.erase name, workers })

/-- Stores a worker, if its owner is there with the identity that it names and its name is free.
This is `create_worker`. -/
def createWorker (m : MemoryStore) (clock : Instant) (launch : Worker.Launch) :
    Except StoreError Worker × MemoryStore :=
  if (m.jobs.get? launch.owner.name).any fun job => job.uid = launch.owner.uid then
    if m.workers.contains launch.name then
      (.error (.alreadyExists .worker launch.name), m)
    else
      let worker := launch.toWorker clock
      (.ok worker, { m with workers := m.workers.insert launch.name worker })
  else (.error (.notFound .job launch.owner.name), m)

/-- Reads a worker (`get_worker`). -/
def getWorker (m : MemoryStore) (name : String) : Except StoreError Worker :=
  match m.workers.get? name with
  | some worker => .ok worker
  | none => .error (.notFound .worker name)

/-- Reads all workers, or those whose owner has a name. This is `list_workers`. -/
def listWorkers (m : MemoryStore) (owner : Option String) : List Worker :=
  m.workers.values.filter fun w => owner.all fun name => w.owner.name = name

/-- Writes the phase of a worker (`update_worker_phase`). -/
def updateWorkerPhase (m : MemoryStore) (name : String) (phase : Worker.Phase) :
    Except StoreError Worker × MemoryStore :=
  match m.workers.get? name with
  | none => (.error (.notFound .worker name), m)
  | some worker =>
    let written := { worker with phase }
    (.ok written, { m with workers := m.workers.insert name written })

/-- Deletes a worker (`delete_worker`). -/
def deleteWorker (m : MemoryStore) (name : String) : Except StoreError Unit × MemoryStore :=
  if m.workers.contains name then (.ok (), { m with workers := m.workers.erase name })
  else (.error (.notFound .worker name), m)

/-- The answer to a call, and the store after it. `clock` is the time at which a new
worker counts as created. -/
def answer (clock : Instant) : (call : StoreCall) → MemoryStore → call.Answer × MemoryStore
  | .createJob job, m => m.createJob job
  | .getJob name, m => (m.getJob name, m)
  | .listJobs, m => (.ok m.jobs.values, m)
  | .updateStatus job, m => m.updateStatus job
  | .deleteJob name, m => m.deleteJob name
  | .createWorker launch, m => m.createWorker clock launch
  | .getWorker name, m => (m.getWorker name, m)
  | .listWorkers owner, m => (.ok (m.listWorkers owner), m)
  | .updateWorkerPhase name phase, m => m.updateWorkerPhase name phase
  | .deleteWorker name, m => m.deleteWorker name

end MemoryStore

end JobOperator
