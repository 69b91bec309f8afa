import JobOperator.Text.Digits
import JobOperator.Text.Start
import JobOperator.Worker.Basic

/-!
# What is launched for an attempt

The worker of an attempt is named after its job and the number of the attempt, so
asking twice for the same attempt asks for the same worker.

* `Worker.nameOf`: the name of a job's worker in its current attempt.
* `Worker.attemptOf?`: the attempt that a name tells of a given job.
* `Worker.Template`: what all workers have in common; `Worker.Template.launch` is
  the request for a job's current attempt.
-/

namespace JobOperator.Worker

/-- The name of the worker for an attempt at a job. -/
def nameFor (job : String) (attempt : UInt32) : String :=
  job ++ "-worker-" ++ toString attempt.toNat

/-- The name of the worker for the current attempt at a job (`worker_name`). -/
def nameOf (job : Job) : String := nameFor job.name job.status.retries

/-- The attempt at a job that a worker's name tells (`attempt_of`). -/
def attemptOf? (job worker : String) : Option UInt32 := do
  let rest ← Text.after? job.toList worker.toList
  let digits ← Text.after? "-worker-".toList rest
  (Digits.unsigned? UInt32.size (String.ofList digits)).map UInt32.ofNat

example : attemptOf? "a-worker-1" "a-worker-1-worker-2" = some 2 := by decide +kernel
example : attemptOf? "a" "a-worker-1-worker-2" = none ∧ attemptOf? "a" "a-worker--1" = none := by
  decide +kernel

/-- The label of everything that the operator launches (`MANAGED_LABEL`). -/
def managedLabel : String := "aerjob.io/managed"

/-- The label that names the job of a worker (`JOB_LABEL`). -/
def jobLabel : String := "aerjob.io/job"

/-- A list of resources in which nothing is left open (`fill`). -/
def fillResources (list : ResourceList) (cpu memory : String) : ResourceList where
  cpu := list.cpu.or (some cpu)
  memory := list.memory.or (some memory)

/-- What all workers have in common (`WorkerSpecBuilder`). -/
structure Template where
  /-- an environment that every worker gets, where its own does not say
  otherwise -/
  extraEnv : Table String := ∅
  deriving DecidableEq, Repr, Inhabited

namespace Template

/-- The environment of a job's worker: the common one under the job's own
variables. -/
def env (t : Template) (job : Job) : Table String :=
  t.extraEnv.insert "JOB_NAME" job.name
    |>.insert "JOB_UID" job.uid.render
    |>.insert "BACKEND_NAME" job.spec.backendName
    |>.insert "SHOTS" (toString job.spec.shots.toNat)
    |>.insert "CIRCUITS" job.spec.circuits
    |>.insert "WORKER_IMAGE" job.spec.workerImage
    |>.insert "ATTEMPT" (toString job.status.retries.toNat)

/-- The labels of a job's worker. -/
def labels (job : Job) : Table String :=
  .ofList [("app", "aerjob-worker"), (managedLabel, "true"), (jobLabel, job.name)]

/-- The request for the worker of a job's current attempt (`build`). -/
def launch (t : Template) (job : Job) : Launch where
  name := nameOf job
  owner := ⟨job.name, job.uid⟩
  spec := {
    image := job.spec.workerImage
    env := t.env job
    labels := labels job
    resources := {
      requests := fillResources job.spec.resources.requests "1" "512Mi"
      limits := fillResources job.spec.resources.limits "2" "2Gi" } }

end Template

end JobOperator.Worker
