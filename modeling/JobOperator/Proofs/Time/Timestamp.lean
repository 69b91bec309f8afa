import JobOperator.Proofs.Text.Digits
import JobOperator.Proofs.Time.Calendar
import JobOperator.Time.Timestamp

/-!
# An instant and its text

What is written of an instant has a date, a time of day and a fraction of a second, and each of them
is read as it was written. Together they tell the instant: a day is told by its date, and a leap
second by being second 60.

* `Instant.Dated`: the instant lies in one of the years that are written with four digits.
* `Timestamp.Fraction`: a fraction as it may be written, with three digits, six, nine or none;
  `Timestamp.Fraction.read`: it is read exactly.
* `Timestamp.local?_textOf`: so is a local time.
* `Timestamp.Written`: a text is that of an instant; `Timestamp.written_render`: what is written of
  it is one. `Timestamp.Written.parse`: **such a text is read as the instant**.
-/

namespace JobOperator

/-- The year of an instant is one that is written with four digits. -/
structure Instant.Dated (t : Instant) : Prop where
  first : 0 ≤ (Date.ofDays (t.second / Instant.secondsPerDay)).year
  last : (Date.ofDays (t.second / Instant.secondsPerDay)).year ≤ 9999

namespace Timestamp

open Digits

variable {cs rest : List Char} {n width limit : Nat}

/-- A number is read up to where it ends, or to as many digits as it may have. -/
theorem number?_of_spells (h : Spells cs width n) (hwidth : 0 < width) (hle : width ≤ limit)
    (hrest : width = limit ∨ ∀ c, rest.head? = some c → isDigit c = false) :
    number? limit (cs ++ rest) = some (n, rest) := by
  have htake : ((cs ++ rest).take limit).takeWhile isDigit = cs := by
    rw [List.take_append, h.length, List.take_of_length_le (by rw [h.length]; exact hle)]
    refine h.takeWhile fun c hc => ?_
    rcases hrest with rfl | hrest
    · rw [Nat.sub_self, List.take_zero] at hc
      cases hc
    · rw [List.head?_take] at hc
      split at hc
      · cases hc
      · exact hrest c hc
  have hne : cs.isEmpty = false :=
    List.isEmpty_eq_false_iff.mpr (List.length_pos_iff.mp (h.length ▸ hwidth))
  rw [number?, htake, hne, h.value, List.drop_left]
  rfl

theorem part?_padded (h : n < 100) : part? ((padded 2 n).toList ++ rest) = some (n, rest) := by
  have hspells := spells_padded (by decide : 0 < 2) h
  rw [part?, hspells.trimStart (by decide),
    number?_of_spells hspells (by decide) (Nat.le_refl 2) (.inl rfl)]

theorem year?_padded (h : n < 10000) :
    year? ((padded 4 n).toList ++ rest) = some ((n : Int), rest) := by
  have hspells := spells_padded (by decide : 0 < 4) h
  have hnumber : number? 4 ((padded 4 n).toList ++ rest) = some (n, rest) :=
    number?_of_spells hspells (by decide) (Nat.le_refl 4) (.inl rfl)
  obtain ⟨c, cs, hcs⟩ := List.exists_cons_of_length_pos (hspells.length ▸ (by decide : 0 < 4))
  have hdigit := hspells.digits c (hcs ▸ List.mem_cons_self)
  rw [year?, hspells.trimStart (by decide)]
  rw [hcs, List.cons_append] at hnumber ⊢
  split
  · next heq =>
    obtain ⟨rfl, -⟩ := List.cons.inj heq
    exact absurd hdigit (by decide)
  · next heq =>
    obtain ⟨rfl, -⟩ := List.cons.inj heq
    exact absurd hdigit (by decide)
  · rw [hnumber]
    rfl

/-- A fraction of a second is read from so many digits. -/
theorem fraction?_of_spells (h : Spells cs width n) (hwidth : 0 < width) (hle : width ≤ 9)
    (hrest : ∀ c, rest.head? = some c → isDigit c = false) :
    fraction? ('.' :: (cs ++ rest)) = some (n * Nat.pow 10 (9 - width), rest) := by
  have hcount : (cs ++ rest).length - rest.length = width := by
    rw [List.length_append, h.length, Nat.add_sub_cancel]
  rw [fraction?, number?_of_spells h hwidth hle (.inr hrest)]
  dsimp only [Option.bind_eq_bind, Option.bind_some]
  rw [hcount]
  have hdrop : rest.dropWhile isDigit = rest := by
    cases rest with
    | nil => rfl
    | cons c rest => simp [hrest c rfl]
  rw [hdrop]
  rfl

/-- A fraction of a second, with three digits, six, nine or none. -/
inductive Fraction : List Char → Nat → Prop where
  | none : Fraction [] 0
  | digits {cs : List Char} {width n : Nat} (h : Spells cs width n) (hwidth : width ∈ [3, 6, 9]) :
      Fraction ('.' :: cs) (n * Nat.pow 10 (9 - width))

variable {nano : Nat}

/-- What is written of a fraction has three digits, six, nine or none. -/
theorem fraction_renderFraction (h : nano < nanosPerSecond) :
    Fraction (renderFraction nano).toList nano := by
  have hdigits {width n : Nat} (hwidth : width ∈ [3, 6, 9]) (hn : n < Nat.pow 10 width)
      (hnano : n * Nat.pow 10 (9 - width) = nano) :
      Fraction ("." ++ padded width n).toList nano := by
    have hpos := (by decide : ∀ w ∈ [3, 6, 9], 0 < w) width hwidth
    rw [String.toList_append, ← hnano]
    exact .digits (spells_padded hpos hn) hwidth
  rw [renderFraction]
  unfold nanosPerSecond at h
  split
  · next hzero =>
    subst hzero
    exact .none
  · split
    · exact hdigits (by decide) (show nano / 1000000 < 1000 by omega)
        (show nano / 1000000 * 1000000 = nano by omega)
    · split
      · exact hdigits (by decide) (show nano / 1000 < 1000000 by omega)
          (show nano / 1000 * 1000 = nano by omega)
      · exact hdigits (by decide) h (Nat.mul_one nano)

/-- However many digits of a fraction are written, it is read exactly. -/
theorem Fraction.read (h : Fraction cs nano)
    (hrest : ∀ c, rest.head? = some c → isDigit c = false ∧ c ≠ '.') :
    fraction? (cs ++ rest) = some (nano, rest) := by
  cases h with
  | none =>
    show fraction? rest = _
    rw [fraction?.eq_def]
    split
    · next => exact absurd rfl (hrest _ rfl).2
    · rfl
  | digits h hwidth =>
    obtain ⟨hpos, hle⟩ := (by decide : ∀ w ∈ [3, 6, 9], 0 < w ∧ w ≤ 9) _ hwidth
    exact fraction?_of_spells h hpos hle fun c hc => (hrest c hc).1

/-! ## The parts of a text -/

/-- A local time whose parts can be written. -/
structure Local.Fits (l : Local) : Prop where
  year : 0 ≤ l.date.year ∧ l.date.year ≤ 9999
  month : l.date.month < 100
  day : l.date.day < 100
  hour : l.hour < 100
  minute : l.minute < 100
  second : l.second < 100

/-- A local time as it is written, with the fraction of its second, and what follows it. -/
def textOf (l : Local) (fraction rest : List Char) : List Char :=
  (padded 4 l.date.year.toNat).toList ++ '-' :: ((padded 2 l.date.month).toList ++
    '-' :: ((padded 2 l.date.day).toList ++ 'T' :: ((padded 2 l.hour).toList ++
    ':' :: ((padded 2 l.minute).toList ++ ':' :: ((padded 2 l.second).toList ++
    (fraction ++ rest))))))

/-- What is written before the offset is read. -/
theorem local?_textOf {l : Local} (h : l.Fits) (hfraction : Fraction cs l.nano)
    (hrest : ∀ c, rest.head? = some c → isDigit c = false ∧ c ≠ '.') :
    local? (textOf l cs rest) = some (l, rest) := by
  obtain ⟨⟨hfirst, hlast⟩, hmonth, hday, hhour, hminute, hsecond⟩ := h
  have hyear := Int.toNat_of_nonneg hfirst
  have hhyphen (cs : List Char) : separator? '-' ('-' :: cs) = some cs := rfl
  have hcolon (cs : List Char) : separator? ':' (':' :: cs) = some cs := rfl
  have hjoint (cs : List Char) : joint? ('T' :: cs) = some cs := rfl
  simp only [local?, textOf, year?_padded (show l.date.year.toNat < 10000 by omega),
    part?_padded hmonth, part?_padded hday, part?_padded hhour, part?_padded hminute,
    part?_padded hsecond, hfraction.read hrest, hhyphen, hcolon, hjoint,
    Option.bind_eq_bind, Option.bind_some, Option.pure_def, hyear]

/-- The parts that the text of an instant is made of. -/
def partsOf (t : Instant) : Local where
  date := Date.ofDays (t.second / Instant.secondsPerDay)
  hour := t.secondOfDay.toNat / 3600
  minute := t.secondOfDay.toNat / 60 % 60
  second := t.secondOfDay.toNat % 60 + (if t.inLeapSecond then 1 else 0)
  nano := t.nano % nanosPerSecond

variable {t : Instant}

/-- Seconds end at 59, and a leap second is second 60. -/
theorem second_partsOf (t : Instant) : ((partsOf t).second : Int) =
    t.second % 60 + (if nanosPerSecond ≤ t.nano then 1 else 0) := by
  have hclock : (t.secondOfDay.toNat : Int) = t.second % 86400 :=
    Int.toNat_of_nonneg (Int.emod_nonneg _ (by decide))
  simp only [partsOf, Instant.inLeapSecond, decide_eq_true_eq]
  split <;> omega

/-- The minutes that the parts tell are those from the beginning. -/
theorem minutes_partsOf (t : Instant) : (partsOf t).date.toDays * 1440 + (partsOf t).hour * 60 +
    (partsOf t).minute = t.second / 60 := by
  have hclock : (t.secondOfDay.toNat : Int) = t.second % 86400 :=
    Int.toNat_of_nonneg (Int.emod_nonneg _ (by decide))
  simp only [partsOf, Date.toDays_ofDays, Instant.secondsPerDay]
  omega

theorem hour_partsOf (t : Instant) : (partsOf t).hour < 24 := by
  have hclock : (t.secondOfDay.toNat : Int) = t.second % 86400 :=
    Int.toNat_of_nonneg (Int.emod_nonneg _ (by decide))
  simp only [partsOf]
  omega

theorem eq_of_second_nano {s t : Instant} (hsecond : s.second = t.second)
    (hnano : s.nano = t.nano) : s = t := by
  obtain ⟨second, nano, _, _⟩ := s
  obtain ⟨_, _, _, _⟩ := t
  obtain rfl : second = _ := hsecond
  obtain rfl : nano = _ := hnano
  rfl

/-- An instant is told by its parts. -/
theorem instant?_partsOf (h : t.Dated) : instant? (partsOf t) 0 = some t := by
  obtain ⟨hfirst, hlast⟩ := Date.days_of_year h.first h.last
  have hcalendar : Instant.firstSecond ≤ -100000000000 ∧ 1000000000000 ≤ Instant.lastSecond := by
    decide
  have hminutes := minutes_partsOf t
  have hsecond := second_partsOf t
  have hfraction : (partsOf t).nano = t.nano % nanosPerSecond := rfl
  have hnano := t.nano_lt
  have hleap := t.leap
  simp only [Instant.secondsPerDay] at hfirst hlast
  unfold nanosPerSecond at *
  have hlegal : (partsOf t).date.valid = true ∧ (partsOf t).hour < 24 ∧ (partsOf t).minute < 60 ∧
      (partsOf t).second ≤ 60 ∧ (partsOf t).nano < 1000000000 :=
    ⟨Date.valid_ofDays _, hour_partsOf t, Nat.mod_lt _ (by decide), by split at hsecond <;> omega,
      by omega⟩
  obtain ⟨hvalid, hhour, hminute, hsixty, hbillion⟩ := hlegal
  simp only [instant?, hminutes, Int.sub_zero]
  rw [dif_pos ⟨hvalid, hhour, hminute, hsixty, hbillion, by omega, by omega, by omega, by omega⟩]
  refine congrArg some ?_
  by_cases hlater : 1000000000 ≤ t.nano
  · -- only the last second of a minute is followed by a leap second
    have hlast := hleap hlater
    rw [if_pos hlater] at hsecond
    rw [dif_pos (by omega)]
    exact eq_of_second_nano (by dsimp only; omega) (by dsimp only; unfold nanosPerSecond; omega)
  · rw [if_neg hlater] at hsecond
    rw [dif_neg (by omega)]
    exact eq_of_second_nano (by dsimp only; omega) (by dsimp only; omega)

/-- The text is that of the instant. Its fraction may have more digits than it needs. -/
def Written (t : Instant) (text : String) : Prop :=
  ∃ cs, Fraction cs (partsOf t).nano ∧ text.toList = textOf (partsOf t) cs ['Z']

theorem written_render (h : t.Dated) : Written t (render t) := by
  have hyear : renderYear (partsOf t).date.year = padded 4 (partsOf t).date.year.toNat :=
    if_pos ⟨h.first, h.last⟩
  have hrender : render t = renderYear (partsOf t).date.year ++ "-" ++
      padded 2 (partsOf t).date.month ++ "-" ++ padded 2 (partsOf t).date.day ++ "T" ++
      padded 2 (partsOf t).hour ++ ":" ++ padded 2 (partsOf t).minute ++ ":" ++
      padded 2 (partsOf t).second ++ renderFraction (partsOf t).nano ++ "Z" := rfl
  refine ⟨_, fraction_renderFraction (Nat.mod_lt _ (by decide)), ?_⟩
  rw [hrender, hyear, textOf]
  simp [String.toList_append]

theorem fits_partsOf (h : t.Dated) : (partsOf t).Fits where
  year := ⟨h.first, h.last⟩
  month := (Date.lt_of_valid (Date.valid_ofDays _)).1
  day := (Date.lt_of_valid (Date.valid_ofDays _)).2
  hour := Nat.lt_trans (hour_partsOf t) (by decide)
  minute := Nat.lt_trans (Nat.mod_lt _ (by decide)) (by decide)
  second := by
    have hsecond := second_partsOf t
    split at hsecond <;> omega

/-- **The text of an instant is read as the instant.** -/
theorem Written.parse {text : String} (hwritten : Written t text) (h : t.Dated) :
    parse? text = some t := by
  obtain ⟨cs, hfraction, htext⟩ := hwritten
  have hlocal : local? (textOf (partsOf t) cs ['Z']) = some (partsOf t, ['Z']) :=
    local?_textOf (fits_partsOf h) hfraction fun c hc =>
      Option.some.inj hc ▸ (by decide : isDigit 'Z' = false ∧ 'Z' ≠ '.')
  have hoffset : offset? (Text.trimStart ['Z']) = some (0, []) := rfl
  rw [parse?, htext, hlocal]
  dsimp only [Option.bind_eq_bind, Option.bind_some]
  rw [hoffset]
  exact instant?_partsOf h

end Timestamp

end JobOperator
