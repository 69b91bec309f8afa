import JobOperator.Time.Timestamp

/-!
# Times in a database

* `Relational.Stamp`: a time as a database keeps it: whole microseconds from the
  start of the year 2000.
* `Relational.Stamp.ofInstant`, `Relational.Stamp.toInstant`: into a database and out
  of it. What is finer than a microsecond is cut off toward the year 2000.
-/

namespace JobOperator.Relational

/-- A time in a database. -/
structure Stamp where
  /-- microseconds from 2000-01-01 -/
  micros : Int
  deriving DecidableEq, Repr, Inhabited

namespace Stamp

/-- The start of the year 2000. -/
def origin : Instant := .ofSecond 946684800

/-- The number of nanoseconds in a microsecond. -/
abbrev nanosPerMicro : Nat := 1000

/-- An instant as a database keeps it. -/
def ofInstant (t : Instant) : Stamp := ⟨(t.since origin).tdiv nanosPerMicro⟩

/-- The instant that a database has kept. -/
def toInstant (s : Stamp) : Instant :=
  .ofNanos (origin.second * nanosPerSecond + s.micros * nanosPerMicro)

end Stamp

end JobOperator.Relational
