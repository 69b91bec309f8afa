import JobOperator.Time.Calendar

/-!
# Instants

Points on the time line of UTC, to the nanosecond. A leap second has no number
of its own on the line of seconds: an instant within it carries the number of
the second before and a fraction of one second or more.

* `Instant`: the points; `Instant.lt` is their order.
* `Instant.since`: the time from one instant to another, in nanoseconds.
* `Instant.addSeconds?`: a later instant, if the calendar reaches that far.
* `Delay`: a length of time that is waited for.
-/

namespace JobOperator

/-- The number of nanoseconds in a second. -/
abbrev nanosPerSecond : Nat := 1000000000

/-- A point in time. -/
structure Instant where
  /-- whole seconds from 1970-01-01 -/
  second : Int
  /-- nanoseconds from the start of the second -/
  nano : Nat
  /-- a second is at most a leap second longer than a second -/
  nano_lt : nano < 2 * nanosPerSecond
  /-- only the last second of a minute can be followed by a leap second -/
  leap : nanosPerSecond ≤ nano → second % 60 = 59
  deriving DecidableEq, Repr

namespace Instant

/-- The instant at the start of a second. -/
def ofSecond (second : Int) : Instant := ⟨second, 0, by decide, fun h => absurd h (by decide)⟩

/-- The instant that lies a number of nanoseconds from 1970-01-01. -/
def ofNanos (nanos : Int) : Instant where
  second := nanos / nanosPerSecond
  nano := (nanos % nanosPerSecond).toNat
  nano_lt := by unfold nanosPerSecond; omega
  leap := by unfold nanosPerSecond; omega

/-- The instant lies within a leap second. -/
def inLeapSecond (t : Instant) : Bool := nanosPerSecond ≤ t.nano

instance : Inhabited Instant := ⟨ofSecond 0⟩

/-- The first instant comes before the second. -/
def lt (s t : Instant) : Prop := s.second < t.second ∨ (s.second = t.second ∧ s.nano < t.nano)

instance : LT Instant := ⟨lt⟩
instance (s t : Instant) : Decidable (s < t) := inferInstanceAs (Decidable (_ ∨ _))
instance : LE Instant := ⟨fun s t => ¬ t < s⟩
instance (s t : Instant) : Decidable (s ≤ t) := inferInstanceAs (Decidable (¬ _))

/-- The number of seconds in a day. -/
abbrev secondsPerDay : Int := 86400

/-- The second of the day. -/
def secondOfDay (t : Instant) : Int := t.second % secondsPerDay

/-- The nanoseconds from `s` to `t`; negative if `t` is the earlier one. A leap
second that the one instant lies in counts as passed when the other stands later
in its day. -/
def since (t s : Instant) : Int :=
  let leaps : Int :=
    if t.secondOfDay > s.secondOfDay && s.inLeapSecond then 1
    else if t.secondOfDay < s.secondOfDay && t.inLeapSecond then -1
    else 0
  (t.second - s.second + leaps) * nanosPerSecond + ((t.nano : Int) - s.nano)

/-- Outside leap seconds, the time between two instants is the difference of
their places on the line of nanoseconds. -/
theorem since_eq {s t : Instant} (hs : s.inLeapSecond = false) (ht : t.inLeapSecond = false) :
    t.since s = (t.second * nanosPerSecond + t.nano) - (s.second * nanosPerSecond + s.nano) := by
  simp only [since, hs, ht, Bool.and_false, Bool.false_eq_true, if_false, nanosPerSecond]
  omega

/-- The last second of the calendar, at the end of the year 262142. -/
def lastSecond : Int := Date.toDays ⟨262142, 12, 31⟩ * secondsPerDay + (secondsPerDay - 1)

/-- The first second of the calendar, at the start of the year -262143. -/
def firstSecond : Int := Date.toDays ⟨-262143, 1, 1⟩ * secondsPerDay

/-- The instant a number of seconds later, unless it lies behind the end of the
calendar. Who leaves a leap second by at least one second lands on the line of
ordinary seconds. -/
def addSeconds? (t : Instant) (seconds : Nat) : Option Instant :=
  if seconds = 0 then some t
  else if t.second + seconds ≤ lastSecond then
    some {
      second := t.second + seconds
      nano := t.nano % nanosPerSecond
      nano_lt := by unfold nanosPerSecond; omega
      leap := by unfold nanosPerSecond; omega }
  else none

end Instant

/-- A length of time that is waited for. -/
structure Delay where
  nanos : Nat
  deriving DecidableEq, Repr

namespace Delay

/-- A delay of whole seconds. -/
def ofSeconds (seconds : Nat) : Delay := ⟨seconds * nanosPerSecond⟩

/-- The whole seconds of a delay. -/
def seconds (d : Delay) : Nat := d.nanos / nanosPerSecond

/-- The nanoseconds of a delay behind its whole seconds. -/
def subsecond (d : Delay) : Nat := d.nanos % nanosPerSecond

end Delay

end JobOperator
