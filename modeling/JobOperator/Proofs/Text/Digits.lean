import JobOperator.Text.Blank
import JobOperator.Text.Digits
import Mathlib.Algebra.Group.Nat.Defs

/-!
# Digits and the number they spell

* `Digits.Spells`: so many digits spell a number.
* `Digits.spells_toDigits`, `Digits.spells_zeros`: a number is spelled by its digits, with or
  without zeros in front; `Digits.head?_toDigits`: by itself it has none.
* `Digits.exists_places`: the powers of ten on the two sides of a number.
* `Digits.Spells.takeWhile`, `Digits.Spells.trimStart`: the digits are found at the start of a text.
-/

namespace JobOperator.Digits

/-- So many digits spell a number. -/
structure Spells (cs : List Char) (width n : Nat) : Prop where
  length : cs.length = width
  digits : ∀ c ∈ cs, isDigit c = true
  value : Digits.value cs = n

variable {c : Char} {cs rest : List Char} {n width : Nat}

theorem digit?_of_isDigit (h : c.isDigit) : digit? c = some (c.toNat - '0'.toNat) := by
  obtain ⟨hlo, hhi⟩ := Bool.and_eq_true_iff.mp h
  exact if_pos ⟨of_decide_eq_true hlo, of_decide_eq_true hhi⟩

theorem isDigit_of_isDigit (h : c.isDigit) : isDigit c = true := by
  rw [isDigit, digit?_of_isDigit h]
  rfl

theorem toNat_of_isDigit (h : isDigit c = true) : 48 ≤ c.toNat ∧ c.toNat ≤ 57 := by
  by_cases hc : '0' ≤ c ∧ c ≤ '9'
  · exact hc
  · rw [isDigit, digit?, if_neg hc] at h
    cases h

/-- No digit is blank. -/
theorem isBlank_of_isDigit (h : isDigit c = true) : Text.isBlank c = false := by
  have hrange := toNat_of_isDigit h
  simp only [Text.isBlank, Bool.or_eq_false_iff, Bool.and_eq_false_iff, decide_eq_false_iff_not,
    beq_eq_false_iff_ne]
  omega

/-- Digits have no case. -/
theorem toLower_of_isDigit (h : isDigit c = true) : c.toLower = c := by
  have hrange := toNat_of_isDigit h
  refine dif_neg fun hupper => ?_
  have hletter : 65 ≤ c.toNat := hupper.1
  omega

/-- Digits spell the number that they are the digits of. -/
theorem value_of_isDigit (h : ∀ c ∈ cs, c.isDigit) : value cs = Nat.ofDigitChars 10 cs 0 := by
  suffices hfold : ∀ n, cs.foldl (fun n c => 10 * n + (digit? c).getD 0) n =
      Nat.ofDigitChars 10 cs n from hfold 0
  induction cs with
  | nil => exact fun _ => rfl
  | cons c cs ih =>
    intro n
    rw [List.foldl_cons, Nat.ofDigitChars_cons, digit?_of_isDigit (h c (List.mem_cons_self ..))]
    exact ih (fun c hc => h c (List.mem_cons_of_mem _ hc)) _

theorem isDigit_of_mem_toDigits (h : c ∈ Nat.toDigits 10 n) : c.isDigit :=
  Nat.isDigit_of_mem_toDigits (by decide) (by decide) h

/-- A text is a number if it has digits and nothing else. -/
theorem natural?_eq_some_iff :
    natural? cs = some n ↔ cs ≠ [] ∧ (∀ c ∈ cs, isDigit c = true) ∧ value cs = n := by
  rw [natural?, Option.ite_none_right_eq_some, Bool.and_eq_true_iff, Bool.not_eq_true',
    List.isEmpty_eq_false_iff, List.all_eq_true, Option.some.injEq, and_assoc]

/-- A number is spelled by its digits. -/
theorem spells_toDigits (n : Nat) :
    Spells (Nat.toDigits 10 n) (Nat.toDigits 10 n).length n where
  length := rfl
  digits := fun _ hc => isDigit_of_isDigit (isDigit_of_mem_toDigits hc)
  value := by rw [value_of_isDigit fun _ => isDigit_of_mem_toDigits, Nat.ofDigitChars_ten_toDigits]

/-- Zeros in front of its digits do not change a number. -/
theorem spells_zeros (zeros n : Nat) : Spells (List.replicate zeros '0' ++ Nat.toDigits 10 n)
    (zeros + (Nat.toDigits 10 n).length) n := by
  have hdigits : ∀ c ∈ List.replicate zeros '0' ++ Nat.toDigits 10 n, c.isDigit := by
    intro c hc
    rcases List.mem_append.mp hc with hzero | hc
    · rw [List.eq_of_mem_replicate hzero]
      rfl
    · exact isDigit_of_mem_toDigits hc
  refine ⟨?_, fun c hc => isDigit_of_isDigit (hdigits c hc), ?_⟩
  · rw [List.length_append, List.length_replicate]
  · rw [value_of_isDigit hdigits, Nat.ofDigitChars_append, Nat.ofDigitChars_replicate_zero,
      Nat.mul_zero, Nat.ofDigitChars_ten_toDigits]

/-- A number that fits is spelled by so many digits. -/
theorem spells_padded (hwidth : 0 < width) (h : n < Nat.pow 10 width) :
    Spells (padded width n).toList width n := by
  have hlength : (Nat.toDigits 10 n).length ≤ width :=
    (Nat.length_toDigits_le_iff (by decide) hwidth).mpr h
  have hspells := spells_zeros (width - (Nat.toDigits 10 n).length) n
  rw [Nat.sub_add_cancel hlength] at hspells
  simpa only [padded, String.toList_ofList] using hspells

/-- Zeros behind its digits multiply a number. -/
theorem value_append_zeros (cs : List Char) (zeros : Nat) :
    value (cs ++ List.replicate zeros '0') = value cs * 10 ^ zeros := by
  induction zeros with
  | zero => rw [List.replicate_zero, List.append_nil, Nat.pow_zero, Nat.mul_one]
  | succ zeros ih =>
    rw [List.replicate_succ', ← List.append_assoc, value, List.foldl_append, ← value, ih,
      Nat.pow_succ, ← Nat.mul_assoc, Nat.mul_comm _ 10]
    rfl

theorem Spells.append_zeros (h : Spells cs width n) (zeros : Nat) :
    Spells (cs ++ List.replicate zeros '0') (width + zeros) (n * 10 ^ zeros) where
  length := by rw [List.length_append, List.length_replicate, h.length]
  digits := by
    intro c hc
    rcases List.mem_append.mp hc with hc | hzero
    · exact h.digits c hc
    · rw [List.eq_of_mem_replicate hzero]
      rfl
  value := by rw [value_append_zeros, h.value]

/-- A number has one digit more than it has places behind the first one. -/
theorem exists_places {n : Nat} (h : n ≠ 0) : ∃ places, (Nat.toDigits 10 n).length = places + 1 ∧
    10 ^ places ≤ n ∧ n < 10 ^ (places + 1) := by
  have hpos : 0 < (Nat.toDigits 10 n).length := List.length_pos_iff.mpr Nat.toDigits_ne_nil
  obtain ⟨places, hlength⟩ := Nat.exists_eq_add_one.mpr hpos
  have hlt := (Nat.length_toDigits_le_iff (by decide) (by omega)).mp (Nat.le_of_eq hlength)
  refine ⟨places, hlength, ?_, hlt⟩
  rcases Nat.eq_zero_or_pos places with rfl | hmore
  · exact Nat.one_le_iff_ne_zero.mpr h
  · rw [← Nat.not_lt, ← Nat.length_toDigits_le_iff (by decide) hmore]
    omega

/-- The digits of a number have no zero in front, unless the number is zero. -/
theorem head?_toDigits (h : (Nat.toDigits 10 n).head? = some '0') : n = 0 := by
  induction n using Nat.strongRecOn with
  | ind n ih =>
    rw [Nat.toDigits_eq_if (by decide)] at h
    split at h
    · next hlt =>
      have hdigit : Nat.digitChar n = '0' := Option.some.inj h
      exact (by decide : ∀ n < 10, Nat.digitChar n = '0' → n = 0) n hlt hdigit
    · obtain ⟨c, cs, hcs⟩ :=
        List.exists_cons_of_ne_nil (Nat.toDigits_ne_nil (n := n / 10) (b := 10))
      rw [hcs] at h
      have hzero := ih (n / 10) (by omega) (by rw [hcs]; exact h)
      omega

namespace Spells

variable (h : Spells cs width n) (hrest : ∀ c, rest.head? = some c → isDigit c = false)
include h

theorem trimStart (hwidth : 0 < width) (rest : List Char) :
    Text.trimStart (cs ++ rest) = cs ++ rest := by
  obtain ⟨c, cs, rfl⟩ := List.exists_cons_of_length_pos (h.length ▸ hwidth)
  have hblank := isBlank_of_isDigit (h.digits c List.mem_cons_self)
  rw [Text.trimStart, List.cons_append, List.dropWhile_cons_of_neg (by simp [hblank])]

include hrest

theorem takeWhile : (cs ++ rest).takeWhile isDigit = cs := by
  rw [List.takeWhile_append_of_pos h.digits]
  cases rest with
  | nil => simp
  | cons c rest => simp [hrest c rfl]

theorem dropWhile : (cs ++ rest).dropWhile isDigit = rest := by
  rw [List.dropWhile_append_of_pos h.digits]
  cases rest with
  | nil => rfl
  | cons c rest => simp [hrest c rfl]

end Spells

end JobOperator.Digits
