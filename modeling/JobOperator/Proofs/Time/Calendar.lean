import JobOperator.Time.Calendar

/-!
# Days and dates

The date of a day is counted out by divisions that are nearly exact. What makes them exact is where
the day stands in its era: in which century, in which group of four years, in which of the four, and
which day of the year it is.

* `Date.Stands`: where a day of an era stands; `Date.exists_stands`: every day stands somewhere.
* `Date.yearOfEra_eq`: the divisions find it.
* `Date.toDays_ofDays`: a day is **told by its date**; `Date.valid_ofDays`: there is such a date.
-/

namespace JobOperator.Date

/-- Where a day `d` of an era stands: it is day `n` of year `y` of group `g` of century `c`. -/
structure Stands (d c g y n : Int) : Prop where
  century : 0 ≤ c ∧ c ≤ 3
  group : 0 ≤ g ∧ g ≤ 24
  year : 0 ≤ y ∧ y ≤ 3
  day : 0 ≤ n ∧ n ≤ 365
  /-- only the last of four years has a leap day, and of the last four of a century only those at the
  end of an era -/
  leap : n = 365 → y = 3 ∧ (g = 24 → c = 3)
  eq : d = 36524 * c + 1461 * g + 365 * y + n

/-- The year of an era that a day of the era lies in. Years begin in March. -/
def yearOfEra (dayOfEra : Int) : Int :=
  (dayOfEra - dayOfEra / 1460 + dayOfEra / 36524 - dayOfEra / 146096) / 365

/-- The days of an era before a year of the era. -/
def daysBefore (year : Int) : Int := 365 * year + year / 4 - year / 100

variable {d c g y n : Int}

theorem exists_stands (first : 0 ≤ d) (last : d < 146097) : ∃ c g y n, Stands d c g y n := by
  -- the last century of an era, and the last of four years, is a day longer
  let century := min (d / 36524) 3
  let dayOfGroup := (d - 36524 * century) % 1461
  let year := min (dayOfGroup / 365) 3
  refine ⟨century, (d - 36524 * century) / 1461, year, dayOfGroup - 365 * year, ?_⟩
  constructor <;> omega

namespace Stands

variable (h : Stands d c g y n)
include h

/-- The divisions find the year. -/
theorem yearOfEra_eq : yearOfEra d = 100 * c + 4 * g + y := by
  obtain ⟨hcentury, hgroup, hyear, hday, hleap, heq⟩ := h
  have hc : d / 36524 - d / 146096 = c := by
    obtain rfl | rfl | rfl | rfl : c = 0 ∨ c = 1 ∨ c = 2 ∨ c = 3 := by omega
    all_goals omega
  rw [yearOfEra]
  -- a leap day has been passed in each group of years, and perhaps in this one
  by_cases hpassed : 1460 ≤ 24 * c + g + 365 * y + n
  · have hleaps : d / 1460 = 25 * c + g + 1 := by omega
    omega
  · have hleaps : d / 1460 = 25 * c + g := by omega
    omega

theorem daysBefore_eq : daysBefore (100 * c + 4 * g + y) = d - n := by
  obtain ⟨hcentury, hgroup, hyear, hday, hleap, heq⟩ := h
  rw [daysBefore]
  omega

/-- The date of the day. -/
theorem ofDays_eq (era : Int) : ofDays (era * 146097 + d - 719468) =
    { year := era * 400 + (100 * c + 4 * g + y) + (if (5 * n + 2) / 153 < 10 then 0 else 1)
      month := (if (5 * n + 2) / 153 < 10 then (5 * n + 2) / 153 + 3
        else (5 * n + 2) / 153 - 9).toNat
      day := (n - (153 * ((5 * n + 2) / 153) + 2) / 5 + 1).toNat } := by
  obtain ⟨hfirst, hlast⟩ : 0 ≤ d ∧ d < 146097 := by
    obtain ⟨hcentury, hgroup, hyear, hday, hleap, heq⟩ := h
    omega
  have hera : (era * 146097 + d - 719468 + 719468) / 146097 = era := by omega
  have hday : (era * 146097 + d - 719468 + 719468) % 146097 = d := by omega
  have hyear := h.yearOfEra_eq
  have hbefore : d - daysBefore (100 * c + 4 * g + y) = n := by
    have hdays := h.daysBefore_eq
    omega
  rw [yearOfEra] at hyear
  rw [daysBefore] at hbefore
  simp only [ofDays, hera, hday, hyear, hbefore]

end Stands

/-- Every day stands somewhere in its era. -/
theorem exists_era (days : Int) :
    ∃ era d c g y n, Stands d c g y n ∧ days = era * 146097 + d - 719468 := by
  obtain ⟨c, g, y, n, h⟩ := exists_stands (d := (days + 719468) % 146097) (by omega) (by omega)
  exact ⟨(days + 719468) / 146097, _, c, g, y, n, h, by omega⟩

/-- **A day is told by its date.** -/
theorem toDays_ofDays (days : Int) : (ofDays days).toDays = days := by
  obtain ⟨era, d, c, g, y, n, h, rfl⟩ := exists_era days
  have hbefore := h.daysBefore_eq
  rw [daysBefore] at hbefore
  rw [h.ofDays_eq, toDays]
  obtain ⟨hcentury, hgroup, hyear, hday, -, -⟩ := h
  have hera : (era * 400 + (100 * c + 4 * g + y)) / 400 = era := by omega
  have hrest : (era * 400 + (100 * c + 4 * g + y)) % 400 = 100 * c + 4 * g + y := by omega
  generalize hm : (5 * n + 2) / 153 = m
  -- the day of the month is what the months before it leave
  have hn : (153 * m + 2) / 5 + ((n - (153 * m + 2) / 5 + 1).toNat : Int) - 1 = n := by omega
  by_cases hmonth : m < 10
  · have hm' : (((m + 3).toNat : Nat) : Int) + -3 = m := by omega
    simp only [if_pos hmonth, if_neg (show ¬ (m + 3).toNat ≤ 2 by omega), hm', Int.add_zero, hera,
      hrest, hn]
    omega
  · have hm' : (((m - 9).toNat : Nat) : Int) + 9 = m := by omega
    simp only [if_neg hmonth, if_pos (show (m - 9).toNat ≤ 2 by omega), hm', Int.add_sub_cancel,
      hera, hrest, hn]
    omega

/-- The year in which a leap day lies is a leap year. -/
theorem Stands.leapYear_eq (h : Stands d c g y 365) (era : Int) :
    leapYear (era * 400 + (100 * c + 4 * g + y) + 1) = true := by
  obtain ⟨hcentury, hgroup, -, -, hleap, -⟩ := h
  obtain ⟨rfl, hlast⟩ := hleap rfl
  simp only [leapYear, Bool.and_eq_true, Bool.or_eq_true, decide_eq_true_eq]
  omega

/-- The days of a month, counted from March, up to January. -/
theorem daysInMonth_eq (year : Int) {m : Int} (first : 0 ≤ m) (last : m < 11) :
    (daysInMonth year (if m < 10 then m + 3 else m - 9).toNat : Int) =
      (153 * (m + 1) + 2) / 5 - (153 * m + 2) / 5 := by
  obtain rfl | rfl | rfl | rfl | rfl | rfl | rfl | rfl | rfl | rfl | rfl : m = 0 ∨ m = 1 ∨ m = 2 ∨
    m = 3 ∨ m = 4 ∨ m = 5 ∨ m = 6 ∨ m = 7 ∨ m = 8 ∨ m = 9 ∨ m = 10 := by omega
  all_goals rfl

/-- **There is such a date.** -/
theorem valid_ofDays (days : Int) : (ofDays days).valid = true := by
  obtain ⟨era, d, c, g, y, n, h, rfl⟩ := exists_era days
  have hday := h.day
  rw [h.ofDays_eq]
  generalize hm : (5 * n + 2) / 153 = m
  simp only [valid, Bool.and_eq_true, decide_eq_true_eq]
  refine ⟨⟨⟨by omega, by omega⟩, by omega⟩, ?_⟩
  by_cases hfebruary : m = 11
  · subst hfebruary
    have hlength : daysInMonth (era * 400 + (100 * c + 4 * g + y) + 1) 2 =
        if leapYear (era * 400 + (100 * c + 4 * g + y) + 1) then 29 else 28 := rfl
    refine Nat.le_trans ?_ (Nat.le_of_eq hlength.symm)
    by_cases hlast : n = 365
    · subst hlast
      rw [if_pos (h.leapYear_eq era)]
      decide
    · by_cases hleap : leapYear (era * 400 + (100 * c + 4 * g + y) + 1)
      · rw [if_pos hleap]
        omega
      · rw [if_neg hleap]
        omega
  · have hlength := daysInMonth_eq
      (era * 400 + (100 * c + 4 * g + y) + (if m < 10 then 0 else 1)) (m := m) (by omega) (by omega)
    omega

theorem daysInMonth_le (year : Int) (month : Nat) : daysInMonth year month ≤ 31 := by
  rw [daysInMonth.eq_def]
  split
  · split <;> decide
  all_goals decide

/-- Months and days have two digits at most. -/
theorem lt_of_valid {date : Date} (h : date.valid = true) : date.month < 100 ∧ date.day < 100 := by
  simp only [valid, Bool.and_eq_true, decide_eq_true_eq] at h
  have hle := daysInMonth_le date.year date.month
  omega

/-- The days of the years that are written with four digits. -/
theorem days_of_year {days : Int} (first : 0 ≤ (ofDays days).year)
    (last : (ofDays days).year ≤ 9999) :
    -865565 ≤ days ∧ days ≤ 2932956 := by
  obtain ⟨era, d, c, g, y, n, h, rfl⟩ := exists_era days
  rw [h.ofDays_eq] at first last
  obtain ⟨hcentury, hgroup, hyear, hday, -, heq⟩ := h
  dsimp only at first last
  split at first <;> omega

end JobOperator.Date
