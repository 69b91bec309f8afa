import JobOperator.Time.Instant

/-!
# When to look again

* `Requeue`: the directive that ends a look at a job.
* `Tier`, `Pacing`: the three paces at which jobs are looked at again, and the
  delay that belongs to each.
-/

namespace JobOperator

/-- When a job wants to be looked at again. A look may come earlier or later. This is `Requeue`. -/
inductive Requeue where
  /-- not before something changes -/
  | done
  /-- at once -/
  | now
  | after (delay : Delay)
  deriving DecidableEq, Repr

/-- A pace (`Tier`). -/
inductive Tier where
  /-- while a worker is alive -/
  | fast
  /-- after an error, or for another attempt -/
  | default
  /-- once a job has finished -/
  | slow
  deriving DecidableEq, Repr

/-- The delay of each pace. This is `RequeuePolicy`. -/
structure Pacing where
  fast : Delay := .ofSeconds 5
  default : Delay := .ofSeconds 10
  slow : Delay := .ofSeconds 60
  deriving DecidableEq, Repr, Inhabited

namespace Pacing

/-- The delay of a pace (`delay` of `RequeuePolicy`). -/
def delay (p : Pacing) : Tier → Delay
  | .fast => p.fast
  | .default => p.default
  | .slow => p.slow

/-- The directive to look again at a pace (`after` of `RequeuePolicy`). -/
def after (p : Pacing) (tier : Tier) : Requeue := .after (p.delay tier)

end Pacing

end JobOperator
