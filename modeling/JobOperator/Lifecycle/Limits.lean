import JobOperator.Job.Basic

/-!
# When a job stops trying

* `Job.pastDeadline`: the time limit, counted from the start of the job whatever
  its workers do.
* `Job.canRetry`: there is another attempt left.
* `Job.timeoutMessage`, `Job.exhaustedMessage`: what is recorded of a job that has
  failed for either reason.
-/

namespace JobOperator.Job

/-- The job has been started for longer than its time limit. A job that has finished is past no
deadline. This is `deadline_exceeded`. -/
def pastDeadline (job : Job) (now : Instant) : Bool :=
  !job.status.phase.terminal &&
    match job.status.startTime, job.spec.timeout with
    | some started, some timeout => decide ((timeout * nanosPerSecond : Nat) < now.since started)
    | _, _ => false

/-- What is recorded of a job that is past its deadline. -/
def timeoutMessage (job : Job) : String :=
  "Job exceeded timeout of " ++ toString job.spec.timeoutSeconds.toNat ++ " seconds"

/-- One more failed worker does not fail the job (`can_retry`). -/
def canRetry (job : Job) : Bool := job.status.retries < job.spec.maxRetries

/-- What is recorded of a job that has no attempt left. Its failures are counted with 32 bits. This
is `retries_exhausted_message`. -/
def exhaustedMessage (job : Job) : String :=
  "Job terminated after " ++ toString (job.status.retries + 1).toNat
    ++ " worker failures (maxRetries: " ++ toString job.spec.maxRetries.toNat ++ ")"

end JobOperator.Job
