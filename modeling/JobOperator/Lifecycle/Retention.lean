import JobOperator.Job.Basic
import JobOperator.Lifecycle.Pacing

/-!
# How long a finished job is kept

* `Retention`: for ever, no longer, or until an instant.
* `Job.retention`: the retention of a job at a time. A job whose time to live ends
  behind the end of the calendar is kept for ever.
* `Retention.requeue`: when to look at such a job again: exactly when it expires.
-/

namespace JobOperator

/-- How long a finished job is kept (`Retention`). -/
inductive Retention where
  | forever
  /-- it is to be deleted -/
  | expired
  | until (expiry : Instant)
  deriving DecidableEq, Repr

/-- How long a job is kept, as seen at a time. This is `evaluate`. -/
def Job.retention (job : Job) (now : Instant) : Retention :=
  match job.spec.ttl, job.status.completionTime with
  | some ttl, some completed =>
    match completed.addSeconds? ttl with
    | some expiry => if expiry ≤ now then .expired else .until expiry
    | none => .forever
  | _, _ => .forever

/-- When to look at a job of this retention again. This is `requeue` of `Retention`. -/
def Retention.requeue (r : Retention) (now : Instant) : Requeue :=
  match r with
  | .forever | .expired => .done
  | .until expiry => .after ⟨(expiry.since now).toNat⟩

end JobOperator
