import JobOperator.Decimal.Double
import JobOperator.Decimal.Literal
import JobOperator.Proofs.Text.Digits
import Mathlib.Algebra.Order.Field.Power
import Mathlib.Data.List.TakeWhile
import Mathlib.Data.Rat.Cast.Order
import Mathlib.Tactic.Linarith
import Mathlib.Tactic.NormNum
import Mathlib.Tactic.Positivity
import Mathlib.Tactic.Ring

/-!
# What a literal names

* `Decimal.value`: the number that a decimal literal says. `Literal.Names`: a text names a number.
* `Decimal.vanishes_iff`: the numbers whose double is zero.
* `Literal.names_digits`: digits with a point among them name what they spell.
* `Double.names_positional`: digits and a power of ten in positional notation name their product.
-/

namespace JobOperator

open Digits (isDigit)

/-! ## The number of a literal -/

namespace Decimal

/-- What the digits and the scale of a decimal say. -/
def magnitude (d : Decimal) : ℚ := d.digits * 10 ^ d.scale

/-- The number that a decimal is. -/
def value (d : Decimal) : ℚ := if d.negative then -d.magnitude else d.magnitude

/-- Half of the least double. The double of what is not greater is zero. -/
def underflow : ℚ := (2 ^ 1075)⁻¹

/-- The greatest double and half of its last bit. The double of what is not less is infinite. -/
def overflow : ℚ := 2 ^ 1024 - 2 ^ 970

theorem underflow_pos : 0 < underflow := inv_pos.mpr (by positivity)

theorem underflow_lt_one : underflow < 1 :=
  inv_lt_one_of_one_lt₀ (one_lt_pow₀ one_lt_two (by decide))

theorem ten_zpow_le_underflow : (10 : ℚ) ^ (-400 : Int) ≤ underflow := by
  have hpowers : (2 : ℚ) ^ 1075 ≤ 10 ^ 400 :=
    calc (2 : ℚ) ^ 1075 ≤ 2 ^ (3 * 400) := pow_le_pow_right₀ one_le_two (by decide)
      _ = 8 ^ 400 := by rw [pow_mul]; norm_num only
      _ ≤ 10 ^ 400 := pow_le_pow_left₀ (by norm_num) (by norm_num) 400
  rw [zpow_neg]
  exact inv_anti₀ (by positivity) hpowers

theorem le_overflow : (2 : ℚ) ^ 970 ≤ overflow := by
  have hsplit : (2 : ℚ) ^ 1024 = 2 ^ 970 * 2 ^ 54 := by rw [← pow_add]
  have hpos : (0 : ℚ) < 2 ^ 970 := by positivity
  rw [overflow, hsplit]
  generalize (2 : ℚ) ^ 970 = bound at hpos ⊢
  linarith

theorem magnitude_nonneg (d : Decimal) : 0 ≤ d.magnitude :=
  mul_nonneg d.digits.cast_nonneg (zpow_pos (by norm_num) _).le

/-- The double of a number is zero if the number is below that bound. -/
theorem vanishes_iff (d : Decimal) : d.vanishes = true ↔ d.magnitude ≤ underflow := by
  unfold vanishes magnitude
  dsimp only
  by_cases hzero : d.digits = 0
  · simp [hzero, underflow_pos.le]
  obtain ⟨places, hlength, hlo, hhi⟩ := Digits.exists_places hzero
  have hpos := zpow_pos (show (0 : ℚ) < 10 by norm_num) d.scale
  have hscale (n : Nat) : (10 : ℚ) ^ n * 10 ^ d.scale = 10 ^ (n + d.scale) := by
    rw [zpow_add₀ (by norm_num), zpow_natCast]
  rw [if_neg hzero, hlength]
  split_ifs with hgreat hsmall
  · have hone : (1 : ℚ) ≤ d.digits * 10 ^ d.scale :=
      calc (1 : ℚ) ≤ 10 ^ (places + d.scale) := one_le_zpow₀ (by norm_num) (by omega)
        _ = 10 ^ places * 10 ^ d.scale := (hscale places).symm
        _ ≤ d.digits * 10 ^ d.scale :=
          mul_le_mul_of_nonneg_right (by exact_mod_cast hlo) hpos.le
    exact iff_of_false (by decide) (underflow_lt_one.trans_le hone).not_ge
  · refine iff_of_true rfl (le_trans (le_of_lt ?_) ten_zpow_le_underflow)
    calc (d.digits : ℚ) * 10 ^ d.scale < 10 ^ (places + 1) * 10 ^ d.scale :=
          mul_lt_mul_of_pos_right (by exact_mod_cast hhi) hpos
      _ = 10 ^ ((places + 1 : Nat) + d.scale) := hscale (places + 1)
      _ ≤ 10 ^ (-400 : Int) := zpow_le_zpow_right₀ (by norm_num) hsmall.le
  · obtain ⟨n, hn⟩ := Int.eq_ofNat_of_zero_le (show 0 ≤ -d.scale by omega)
    have hinv : (10 : ℚ) ^ d.scale = (10 ^ n)⁻¹ := by
      rw [← neg_neg d.scale, hn, zpow_neg]
      rfl
    rw [decide_eq_true_iff, hn, hinv, ← div_eq_mul_inv, underflow]
    generalize 1075 = bits
    rw [inv_eq_one_div, div_le_div_iff₀ (by positivity) (by positivity), one_mul]
    exact_mod_cast Iff.rfl

/-- A number is greater than what rounds to zero if it is not negative and does not vanish. -/
theorem underflow_lt_iff (d : Decimal) :
    underflow < d.value ↔ d.negative = false ∧ d.vanishes = false := by
  rw [← Bool.not_eq_true d.vanishes, d.vanishes_iff, not_le, value]
  cases d.negative with
  | true =>
    refine iff_of_false (not_lt.mpr ?_) fun h => Bool.noConfusion h.1
    rw [if_pos rfl]
    exact (neg_nonpos.mpr d.magnitude_nonneg).trans underflow_pos.le
  | false => exact (and_iff_right rfl).symm

end Decimal

namespace Literal

variable {c : Char} {cs whole fraction : List Char}

/-- The text is a literal of the number. -/
def Names (s : String) (x : ℚ) : Prop := ∃ d, parse? s = some (.finite d) ∧ d.value = x

/-- A literal is positive if it is infinitely great, or a number that is not too small. -/
theorem positive_iff {l : Literal} : l.positive = true ↔
    l = .infinite false ∨ ∃ d, l = .finite d ∧ Decimal.underflow < d.value := by
  cases l with
  | finite d =>
    simp only [positive, Bool.and_eq_true_iff, Bool.not_eq_true', ← Decimal.underflow_lt_iff]
    simp
  | infinite negative => simp [positive]
  | notANumber => simp [positive]

/-! ## Digits as literals -/

/-- What begins with a digit is no word and has no sign. -/
theorem parse?_of_isDigit (h : isDigit c = true) :
    parse? (String.ofList (c :: cs)) = (number? false (c :: cs)).map .finite := by
  have hword {word : String} (hhead : word.toList.head?.any isDigit = false) :
      String.ofList ((c :: cs).map Char.toLower) ≠ word := by
    rintro rfl
    rw [String.toList_ofList, List.map_cons, Digits.toLower_of_isDigit h] at hhead
    exact absurd h (Bool.eq_false_iff.mp hhead)
  unfold parse?
  rw [String.toList_ofList]
  split
  · next heq =>
    cases heq
    exact absurd h (by decide)
  · next heq =>
    cases heq
    exact absurd h (by decide)
  · have hinf : String.ofList ((c :: cs).map Char.toLower) ≠ "inf" := hword (by decide)
    have hinfinity : String.ofList ((c :: cs).map Char.toLower) ≠ "infinity" := hword (by decide)
    have hnan : String.ofList ((c :: cs).map Char.toLower) ≠ "nan" := hword (by decide)
    dsimp only [unsigned?]
    rw [decide_eq_false hinf, decide_eq_false hinfinity, Bool.or_self, if_neg Bool.false_ne_true,
      if_neg hnan]

/-- The digits of a literal without an exponent, with a point among them or none. -/
theorem number?_digits (hne : whole ≠ []) (hwhole : ∀ c ∈ whole, isDigit c = true)
    (hfraction : ∀ c ∈ fraction, isDigit c = true) :
    number? false (if fraction.isEmpty then whole else whole ++ '.' :: fraction) =
      some ⟨false, Digits.value (whole ++ fraction), -fraction.length⟩ := by
  unfold number?
  split
  · next hempty =>
    rw [List.isEmpty_iff.mp hempty]
    have htake := List.takeWhile_eq_self_iff.mpr hwhole
    have hdrop := List.dropWhile_eq_nil_iff.mpr hwhole
    simp [htake, hdrop, hne, exponent?]
  · have hspells : Digits.Spells whole whole.length (Digits.value whole) := ⟨rfl, hwhole, rfl⟩
    have hpoint : ∀ c, ('.' :: fraction).head? = some c → isDigit c = false := by
      rintro c ⟨⟩
      decide
    have htake := List.takeWhile_eq_self_iff.mpr hfraction
    have hdrop := List.dropWhile_eq_nil_iff.mpr hfraction
    simp [hspells.takeWhile hpoint, hspells.dropWhile hpoint, htake, hdrop, hne, exponent?]

/-- Digits, with a point among them or none, name what they spell. -/
theorem names_digits (hne : whole ≠ []) (hwhole : ∀ c ∈ whole, isDigit c = true)
    (hfraction : ∀ c ∈ fraction, isDigit c = true) :
    Names (String.ofList (if fraction.isEmpty then whole else whole ++ '.' :: fraction))
      (Digits.value (whole ++ fraction) / 10 ^ fraction.length) := by
  have hnumber := number?_digits hne hwhole hfraction
  obtain ⟨c, rest, rfl⟩ := List.exists_cons_of_ne_nil hne
  obtain ⟨behind, hbehind⟩ : ∃ behind, (if fraction.isEmpty then c :: rest else
      c :: rest ++ '.' :: fraction) = c :: behind := by
    split
    · exact ⟨rest, rfl⟩
    · exact ⟨rest ++ '.' :: fraction, rfl⟩
  refine ⟨⟨false, Digits.value (c :: rest ++ fraction), -fraction.length⟩, ?_, ?_⟩
  · rw [hbehind] at hnumber ⊢
    rw [parse?_of_isDigit (hwhole c List.mem_cons_self), hnumber]
    rfl
  · simp [Decimal.value, Decimal.magnitude, div_eq_mul_inv]

end Literal

namespace Double

open Literal (Names names_digits)

/-- A text goes on with zeros behind what is left of it without them. -/
theorem exists_zeros (cs : List Char) : ∃ zeros,
    cs = (cs.reverse.dropWhile (· = '0')).reverse ++ List.replicate zeros '0' := by
  have hzero : ∀ c ∈ cs.reverse.takeWhile (· = '0'), c = '0' := fun c hc =>
    of_decide_eq_true (List.mem_takeWhile_imp (p := fun c => decide (c = '0')) hc)
  refine ⟨(cs.reverse.takeWhile (· = '0')).length, ?_⟩
  rw [← List.reverse_replicate, ← List.eq_replicate_of_mem hzero, ← List.reverse_append,
    List.takeWhile_append_dropWhile, List.reverse_reverse]

/-- **Positional notation names the number** that the digits are, at their power of ten. -/
theorem names_positional (b : Nat) (k : Int) : Names (positional b k) (b * 10 ^ k) := by
  have htext : (toString b).toList = Nat.toDigits 10 b := Nat.toList_repr
  unfold positional
  dsimp only
  rw [htext]
  split
  · next hk =>
    obtain ⟨zeros, rfl⟩ := Int.eq_ofNat_of_zero_le hk
    have hspells := (Digits.spells_toDigits b).append_zeros zeros
    have hnames := @names_digits (Nat.toDigits 10 b ++ List.replicate zeros '0') [] (by simp)
      hspells.digits nofun
    rw [List.append_nil, hspells.value, List.length_nil, pow_zero, div_one] at hnames
    rw [zpow_natCast]
    exact_mod_cast hnames
  · next hk =>
    obtain ⟨places, hplaces⟩ := Int.eq_ofNat_of_zero_le (show 0 ≤ -k by omega)
    rw [hplaces, Int.toNat_natCast]
    have hspells := Digits.spells_zeros (places + 1 - (Nat.toDigits 10 b).length) b
    generalize List.replicate (places + 1 - (Nat.toDigits 10 b).length) '0' ++
      Nat.toDigits 10 b = padded at hspells ⊢
    have hlength : places < padded.length := by
      have := hspells.length
      omega
    have hwhole : padded.take (padded.length - places) ≠ [] := by
      rw [Ne, List.take_eq_nil_iff, ← List.length_eq_zero_iff]
      omega
    have hbehind : (padded.drop (padded.length - places)).length = places := by
      rw [List.length_drop]
      omega
    have hsplit := List.take_append_drop (padded.length - places) padded
    generalize padded.take (padded.length - places) = whole at *
    generalize padded.drop (padded.length - places) = behind at *
    -- the zeros at the end stand for nothing
    obtain ⟨zeros, hzeros⟩ := exists_zeros behind
    rw [← List.isEmpty_reverse]
    generalize (behind.reverse.dropWhile (· = '0')).reverse = fraction at *
    subst hzeros hsplit
    rw [List.length_append, List.length_replicate] at hbehind
    have hvalue := hspells.value
    rw [← List.append_assoc, Digits.value_append_zeros] at hvalue
    have hnames := names_digits hwhole (fun c hc => hspells.digits c (by simp [hc]))
      (fun c (hc : c ∈ fraction) => hspells.digits c (by simp [hc]))
    have hpower : (10 : ℚ) ^ k = (10 ^ fraction.length * 10 ^ zeros)⁻¹ := by
      rw [← pow_add, hbehind, ← zpow_natCast, ← hplaces, zpow_neg, inv_inv]
    rw [← hvalue, hpower, Nat.cast_mul, Nat.cast_pow, Nat.cast_ofNat, mul_inv, mul_assoc,
      mul_comm ((10 : ℚ) ^ zeros), mul_assoc, inv_mul_cancel₀ (by positivity), mul_one,
      ← div_eq_mul_inv]
    exact hnames

end Double

end JobOperator
