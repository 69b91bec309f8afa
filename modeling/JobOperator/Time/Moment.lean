import JobOperator.Time.Instant

/-!
# Moments

Readings of a clock that never goes back and has no date. Its origin means nothing;
only differences and the order of two readings do.

* `Moment`: the readings.
* `Moment.after?`: the moment a delay later, if the clock gets that far.
-/

namespace JobOperator

/-- A reading of the steady clock. -/
structure Moment where
  /-- nanoseconds from the origin -/
  nanos : Int
  deriving DecidableEq, Repr, Inhabited

namespace Moment

instance : LE Moment := ⟨fun a b => a.nanos ≤ b.nanos⟩
instance : LT Moment := ⟨fun a b => a.nanos < b.nanos⟩
instance (a b : Moment) : Decidable (a ≤ b) := inferInstanceAs (Decidable (a.nanos ≤ b.nanos))
instance (a b : Moment) : Decidable (a < b) := inferInstanceAs (Decidable (a.nanos < b.nanos))

theorem le_def {a b : Moment} : a ≤ b ↔ a.nanos ≤ b.nanos := Iff.rfl

theorem lt_def {a b : Moment} : a < b ↔ a.nanos < b.nanos := Iff.rfl

/-- The earlier of two moments. -/
def earlier (a b : Moment) : Moment := if a ≤ b then a else b

/-- The number of nanoseconds in a millisecond. -/
def nanosPerMilli : Nat := 1000000

/-- The moment a number of milliseconds from the origin. -/
def ofMillis (millis : Int) : Moment := ⟨millis * nanosPerMilli⟩

/-- The clock counts its seconds in 63 bits. -/
def reach : Int := 9223372036854775808 * nanosPerSecond

/-- The moment a delay later, unless the clock does not get that far. -/
def after? (t : Moment) (d : Delay) : Option Moment :=
  if t.nanos + d.nanos < reach then some ⟨t.nanos + d.nanos⟩ else none

end Moment

end JobOperator
