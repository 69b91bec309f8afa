import JobOperator.Lifecycle.Limits
import JobOperator.Lifecycle.Pacing
import JobOperator.Worker.Launch

/-!
# One step of a job

What is stored of a job and what is seen of its worker decide the job's next
status, what happens to the worker, and when to look again. A step makes at most
one transition between phases.

* `Observation`: what is seen of the worker.
* `Effect`: what happens to it.
* `Job.step`: the step. The deadline comes before everything else, and a finished
  job takes no step.
-/

namespace JobOperator

/-- What is seen of the worker of a job (`Observation`). -/
inductive Observation where
  /-- the job names no worker, or there is none of that name -/
  | missing
  | found (phase : Worker.Phase)
  deriving DecidableEq, Repr

/-- What a step does to a worker (`Effect`). -/
inductive Effect where
  | none
  /-- the worker of the current attempt is launched -/
  | create
  /-- a worker is removed -/
  | delete (worker : String)
  deriving DecidableEq, Repr

/-- What follows from a look at a job (`Step`). -/
structure Step where
  status : Job.Status
  effect : Effect
  requeue : Requeue
  deriving DecidableEq, Repr

namespace Job

/-- The status of a job that has failed (`fail`). -/
def Status.fail (s : Status) (message : String) (now : Instant) : Status :=
  { s with
    phase := .failed
    completionTime := some now
    errorMessage := some message
    workerRef := none }

/-- The step of a job that is not past its deadline. This is `step` behind its check of the
deadline. -/
def advance (job : Job) (seen : Observation) (now : Instant) (pacing : Pacing) : Step :=
  let s := job.status
  match s.phase, seen with
  | .unstarted, _ =>
    ⟨{ s with phase := .pending, startTime := s.startTime.or (some now), retries := 0 },
      .none, .now⟩
  | .pending, .missing =>
    ⟨{ s with workerRef := some (Worker.nameOf job) }, .create, .now⟩
  | .pending, .found _ => ⟨{ s with phase := .running }, .none, .now⟩
  | .running, .missing => ⟨{ s with phase := .pending, workerRef := none }, .none, .now⟩
  | .running, .found .pending | .running, .found .running => ⟨s, .none, pacing.after .fast⟩
  | .running, .found .succeeded =>
    ⟨{ s with phase := .completed, completionTime := some now, workerRef := none },
      .none, pacing.after .slow⟩
  | .running, .found .failed =>
    if job.canRetry then
      ⟨{ s with phase := .pending, retries := s.retries + 1, workerRef := none },
        .delete (s.workerRef.getD (Worker.nameOf job)), pacing.after .default⟩
    else ⟨s.fail job.exhaustedMessage now, .none, pacing.after .slow⟩
  | .completed, _ | .failed, _ => ⟨s, .none, .done⟩

/-- The step of a job. This is `step`. -/
def step (job : Job) (seen : Observation) (now : Instant) (pacing : Pacing) : Step :=
  if job.pastDeadline now then ⟨job.status.fail job.timeoutMessage now, .none, .now⟩
  else job.advance seen now pacing

end Job

end JobOperator
