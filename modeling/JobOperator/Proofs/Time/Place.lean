import JobOperator.Job.Basic
import JobOperator.Time.Instant

/-!
# The line of nanoseconds

Outside leap seconds an instant has a place on the line of nanoseconds, and what is done with
instants is arithmetic with places.

* `Instant.place`: the place of an instant. `Instant.Ordinary` says that the instant lies in the
  calendar and outside leap seconds.
* `Instant.Ordinary.since_eq`, `Instant.Ordinary.le_iff`, `Instant.Ordinary.addSeconds?_eq_some`:
  differences, the order and later instants.
* `Instant.Ordinary.addSeconds?_min`, `Instant.Ordinary.lt_since_min`: the greatest number of seconds
  that a limit is taken for is **longer than the calendar**, so nobody can tell that there is one.
-/

namespace JobOperator.Instant

/-- The place of an instant on the line of nanoseconds. -/
def place (t : Instant) : Int := t.second * nanosPerSecond + t.nano

/-- The instant lies in the calendar, and not in a leap second. -/
structure Ordinary (t : Instant) : Prop where
  first : firstSecond ≤ t.second
  last : t.second ≤ lastSecond
  nano : t.nano < nanosPerSecond

variable {s t : Instant}

/-- A limit reaches farther than the calendar. -/
theorem calendar_lt : lastSecond - firstSecond < Job.Spec.longestSeconds := by decide

theorem place_ofNanos (n : Int) : (ofNanos n).place = n := by
  simp only [place, ofNanos, nanosPerSecond]
  omega

namespace Ordinary

/-- The time between two instants is the difference of their places. -/
theorem since_eq (hs : s.Ordinary) (ht : t.Ordinary) : t.since s = t.place - s.place := by
  have hs' : s.inLeapSecond = false := decide_eq_false (Nat.not_le.mpr hs.nano)
  have ht' : t.inLeapSecond = false := decide_eq_false (Nat.not_le.mpr ht.nano)
  exact Instant.since_eq hs' ht'

theorem lt_iff (hs : s.Ordinary) (ht : t.Ordinary) : s < t ↔ s.place < t.place := by
  have hs' := hs.nano
  have ht' := ht.nano
  show s.second < t.second ∨ (s.second = t.second ∧ s.nano < t.nano) ↔ _
  simp only [place, nanosPerSecond] at hs' ht' ⊢
  omega

theorem le_iff (hs : s.Ordinary) (ht : t.Ordinary) : s ≤ t ↔ s.place ≤ t.place :=
  (not_congr (ht.lt_iff hs)).trans Int.not_lt

/-- An instant is told by its place. -/
theorem ofNanos_place (ht : t.Ordinary) : ofNanos t.place = t := by
  have ht' := ht.nano
  obtain ⟨second, nano, _, _⟩ := t
  simp only [ofNanos, place, nanosPerSecond, mk.injEq] at ht' ⊢
  constructor <;> omega

theorem eq_of_place (hs : s.Ordinary) (ht : t.Ordinary) (h : s.place = t.place) : s = t := by
  rw [← hs.ofNanos_place, ← ht.ofNanos_place, h]

/-- Every place from the start of the calendar to its end is that of an instant. -/
theorem ofNanos {n : Int} (first : firstSecond * nanosPerSecond ≤ n)
    (last : n < (lastSecond + 1) * nanosPerSecond) : (ofNanos n).Ordinary := by
  simp only [nanosPerSecond] at first last
  refine ⟨?_, ?_, ?_⟩ <;> simp only [Instant.ofNanos, nanosPerSecond] <;> omega

theorem first_le_place (ht : t.Ordinary) : firstSecond * nanosPerSecond ≤ t.place := by
  have hfirst := ht.first
  simp only [place, nanosPerSecond]
  omega

theorem place_lt_last (ht : t.Ordinary) : t.place < (lastSecond + 1) * nanosPerSecond := by
  have hlast := ht.last
  have hnano := ht.nano
  simp only [place, nanosPerSecond] at hnano ⊢
  omega

theorem addSeconds?_eq (ht : t.Ordinary) (seconds : Nat) :
    t.addSeconds? seconds = if t.second + seconds ≤ lastSecond then
      some (.ofNanos (t.place + seconds * nanosPerSecond)) else none := by
  have hlast := ht.last
  have hnano := ht.nano
  by_cases hzero : seconds = 0
  · subst hzero
    rw [if_pos (by omega), Int.natCast_zero, Int.zero_mul, Int.add_zero, ht.ofNanos_place]
    rfl
  · rw [addSeconds?, if_neg hzero]
    split
    · simp only [Instant.ofNanos, place, nanosPerSecond, Option.some.injEq, mk.injEq] at hnano ⊢
      constructor <;> omega
    · rfl

/-- A later instant is there if the calendar reaches that far. -/
theorem addSeconds?_eq_some (ht : t.Ordinary) {seconds : Nat} {e : Instant} :
    t.addSeconds? seconds = some e ↔
      e.Ordinary ∧ e.place = t.place + seconds * nanosPerSecond := by
  have hfirst := ht.first_le_place
  have hnano := ht.nano
  rw [ht.addSeconds?_eq]
  constructor
  · intro h
    split at h
    · next hlast =>
      obtain rfl := Option.some.inj h
      refine ⟨.ofNanos ?_ ?_, place_ofNanos _⟩
      · simp only [nanosPerSecond] at hfirst ⊢
        omega
      · simp only [place, nanosPerSecond] at hnano ⊢
        omega
    · cases h
  · rintro ⟨he, hplace⟩
    have hend := he.place_lt_last
    rw [hplace] at hend
    rw [if_pos, ← hplace, he.ofNanos_place]
    simp only [place, nanosPerSecond] at hend
    omega

/-- Whether or not a number of seconds is cut off at the greatest one that a limit is taken for, the
calendar ends before. -/
theorem addSeconds?_min (ht : t.Ordinary) (seconds : Nat) :
    t.addSeconds? (min seconds Job.Spec.longestSeconds) = t.addSeconds? seconds := by
  rcases Nat.le_total seconds Job.Spec.longestSeconds with hle | hle
  · rw [Nat.min_eq_left hle]
  · have hfirst := ht.first
    have hcalendar := calendar_lt
    rw [Nat.min_eq_right hle, ht.addSeconds?_eq, ht.addSeconds?_eq, if_neg (by omega),
      if_neg (by omega)]

theorem lt_since_min (hs : s.Ordinary) (ht : t.Ordinary) (seconds : Nat) :
    ((min seconds Job.Spec.longestSeconds * nanosPerSecond : Nat) : Int) < t.since s ↔
      (seconds * nanosPerSecond : Int) < t.place - s.place := by
  rw [hs.since_eq ht]
  rcases Nat.le_total seconds Job.Spec.longestSeconds with hle | hle
  · rw [Nat.min_eq_left hle, Int.natCast_mul]
  · -- no two instants of the calendar are that far apart
    have hcalendar := calendar_lt
    have hfirst := hs.first_le_place
    have hlast := ht.place_lt_last
    rw [Nat.min_eq_right hle]
    simp only [nanosPerSecond] at hfirst hlast ⊢
    omega

end Ordinary

end JobOperator.Instant
