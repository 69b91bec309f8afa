import JobOperator.Decimal.Double
import Mathlib.Algebra.Order.Field.Basic
import Mathlib.Algebra.Order.Field.Power
import Mathlib.Data.Rat.Cast.Order
import Mathlib.Tactic.FieldSimp
import Mathlib.Tactic.Linarith
import Mathlib.Tactic.NormNum
import Mathlib.Tactic.Positivity
import Mathlib.Tactic.Ring

/-!
# What rounds to a double

Doubles are computed on natural numbers, as quotients whose terms are multiplied out. Here they are
what they stand for: rational numbers, each with the interval of those that round to it.

* `Double.value`: the number that a double is. `Double.Normal`: its mantissa has all its bits.
* `Double.Rounds`: a number rounds to a double. `Double.reads_iff`: this is what is tested of a
  decimal.
* `Double.ofRatio_rounds`: a quotient rounds to its double. A whole number that fits the mantissa
  is its double (`Double.value_ofRatio_one`).
* `Double.Rounds.near`: how far a number and its double may be apart.
-/

namespace JobOperator.Double

variable {d : Double} {num den : Nat} {e : Int} {x y : ℚ}

/-! ## Numbers as quotients -/

/-- The number that a double is. -/
def value (d : Double) : ℚ := d.mantissa * 2 ^ d.exponent

/-- All bits of the mantissa are used. -/
structure Normal (d : Double) : Prop where
  least : leastMantissa ≤ d.mantissa
  lt : d.mantissa < 2 * leastMantissa

theorem zpow_of_nonneg (b : ℚ) (h : 0 ≤ e) : b ^ e = b ^ e.toNat := by
  rw [← zpow_natCast, Int.toNat_of_nonneg h]

theorem zpow_of_neg (b : ℚ) (h : ¬ 0 ≤ e) : b ^ e = (b ^ (-e).toNat)⁻¹ := by
  rw [← zpow_natCast, Int.toNat_of_nonneg (by omega), zpow_neg, inv_inv]

/-- A quotient that is divided by a power, in whole terms. -/
theorem scaled_eq (b num den : Nat) (e : Int) :
    let p := if 0 ≤ e then (num, den * Nat.pow b e.toNat) else (num * Nat.pow b (-e).toNat, den)
    (p.1 : ℚ) / p.2 = num / den / b ^ e := by
  dsimp only
  split
  · next h => simp [zpow_of_nonneg _ h, div_div]
  · next h => simp [zpow_of_neg _ h, mul_div_right_comm]

theorem scaled_pos {b : Nat} (hb : 0 < b) (hden : 0 < den) (num : Nat) (e : Int) :
    0 < (if 0 ≤ e then (num, den * Nat.pow b e.toNat)
      else (num * Nat.pow b (-e).toNat, den)).2 := by
  split
  · exact Nat.mul_pos hden (Nat.pow_pos hb)
  · exact hden

theorem shift_eq (num den : Nat) (e : Int) :
    ((shift num den e).1 : ℚ) / (shift num den e).2 = num / den / 2 ^ e := scaled_eq 2 num den e

theorem shift_pos (hden : 0 < den) (num : Nat) (e : Int) : 0 < (shift num den e).2 :=
  scaled_pos two_pos hden num e

theorem shift10_eq (num den : Nat) (k : Int) :
    ((shift10 num den k).1 : ℚ) / (shift10 num den k).2 = num / den / 10 ^ k :=
  scaled_eq 10 num den k

theorem shift10_pos (hden : 0 < den) (num : Nat) (k : Int) : 0 < (shift10 num den k).2 :=
  scaled_pos (by decide) hden num k

theorem ratio_eq (d : Double) : (d.ratio.1 : ℚ) / d.ratio.2 = d.value := by
  unfold ratio value
  split
  · next h => simp [zpow_of_nonneg _ h]
  · next h => simp [zpow_of_neg _ h, div_eq_mul_inv]

theorem ratio_pos (d : Double) : 0 < d.ratio.2 := by
  unfold ratio
  split
  · exact Nat.one_pos
  · exact Nat.pow_pos (by decide)

theorem leastMantissa_pos : 0 < leastMantissa := by decide

theorem leastMantissa_even : ¬ leastMantissa % 2 = 1 := by decide

theorem leastMantissa_eq : (leastMantissa : ℚ) = 2 ^ 52 := by norm_num [leastMantissa]

/-! ## The interval of a double -/

/-- How far below a mantissa its interval begins. Below a power of two doubles are closer. -/
def margin (m : Nat) : ℚ := if m = leastMantissa then 1 / 4 else 1 / 2

/-- A number in units of the last bit lies in the interval of a mantissa. The ends belong to it if
the mantissa is even. -/
structure Nears (m : Nat) (y : ℚ) : Prop where
  lower : m - margin m ≤ y
  upper : y ≤ m + 1 / 2
  inner : m % 2 = 1 → m - margin m < y ∧ y < m + 1 / 2

/-- The number rounds to the double. -/
def Rounds (d : Double) (x : ℚ) : Prop := Nears d.mantissa (x / 2 ^ d.exponent)

theorem margin_pos (m : Nat) : 0 < margin m := by
  unfold margin
  split <;> norm_num

theorem margin_le (m : Nat) : margin m ≤ 1 / 2 := by
  unfold margin
  split <;> norm_num

theorem two_zpow_pos (e : Int) : (0 : ℚ) < 2 ^ e := zpow_pos two_pos e

theorem value_div (d : Double) : d.value / 2 ^ d.exponent = d.mantissa :=
  mul_div_cancel_right₀ _ (two_zpow_pos _).ne'

/-- What lies between two numbers that round to a double rounds to it. -/
theorem Rounds.between {z : ℚ} (hx : Rounds d x) (hz : Rounds d z) (hxy : x ≤ y) (hyz : y ≤ z) :
    Rounds d y := by
  have hxy' := div_le_div_of_nonneg_right hxy (two_zpow_pos d.exponent).le
  have hyz' := div_le_div_of_nonneg_right hyz (two_zpow_pos d.exponent).le
  exact ⟨hx.lower.trans hxy', hyz'.trans hz.upper, fun hodd =>
    ⟨(hx.inner hodd).1.trans_le hxy', hyz'.trans_lt (hz.inner hodd).2⟩⟩

/-- A double rounds to itself. -/
theorem rounds_value (d : Double) : Rounds d d.value := by
  have hmargin := margin_pos d.mantissa
  rw [Rounds, value_div]
  exact ⟨by linarith, by linarith, fun _ => ⟨by linarith, by linarith⟩⟩

/-! ## What is tested of a decimal -/

section Reads

variable {a u n den den' : Nat} (hunit : (u : ℚ) / den = 2 ^ e / 4)
include hunit

theorem quarters_eq (a : Nat) : (a : ℚ) / 4 * 2 ^ e = a * u / den := by
  rw [mul_div_assoc, hunit]
  ring

variable (hx : (n : ℚ) / den' = x) (hden : 0 < den) (hden' : 0 < den')
include hx hden hden'

/-- Multiplied out, so many quarters of the last bit are compared with a number. -/
theorem quarters_le_iff : a * u * den' ≤ n * den ↔ (a : ℚ) / 4 ≤ x / 2 ^ e := by
  rw [le_div_iff₀ (two_zpow_pos e), quarters_eq hunit, ← hx,
    div_le_div_iff₀ (Nat.cast_pos.mpr hden) (Nat.cast_pos.mpr hden')]
  norm_cast

theorem le_quarters_iff : n * den ≤ a * u * den' ↔ x / 2 ^ e ≤ (a : ℚ) / 4 := by
  rw [div_le_iff₀ (two_zpow_pos e), quarters_eq hunit, ← hx,
    div_le_div_iff₀ (Nat.cast_pos.mpr hden') (Nat.cast_pos.mpr hden)]
  norm_cast

end Reads

/-- The ends of the interval of a double in quarters of its last bit. -/
theorem Normal.lower_eq (hd : d.Normal) :
    ((4 * d.mantissa - (if d.mantissa = leastMantissa then 1 else 2) : Nat) : ℚ) / 4 =
      d.mantissa - margin d.mantissa := by
  have hleast : 4503599627370496 ≤ d.mantissa := hd.least
  unfold margin
  split
  · rw [Nat.cast_sub (by omega)]
    push_cast
    ring
  · rw [Nat.cast_sub (by omega)]
    push_cast
    ring

theorem upper_eq (m : Nat) : ((4 * m + 2 : Nat) : ℚ) / 4 = m + 1 / 2 := by
  push_cast
  ring

/-- A decimal is tested for rounding to the double. -/
theorem reads_iff (hd : d.Normal) (digits : Nat) (k : Int) :
    d.reads digits k = true ↔ Rounds d (digits * 10 ^ k) := by
  have hunit : ((ratio ⟨1, d.exponent - 2⟩).1 : ℚ) / (ratio ⟨1, d.exponent - 2⟩).2 =
      2 ^ d.exponent / 4 := by
    rw [ratio_eq, value, zpow_sub₀ two_ne_zero]
    norm_num
  have hx : ((shift10 digits 1 (-k)).1 : ℚ) / (shift10 digits 1 (-k)).2 = digits * 10 ^ k := by
    rw [shift10_eq, Nat.cast_one, div_one, zpow_neg, div_inv_eq_mul]
  have hden := ratio_pos ⟨1, d.exponent - 2⟩
  have hden' := shift10_pos Nat.one_pos digits (-k)
  have hlower := hd.lower_eq
  unfold reads Rounds
  generalize 4 * d.mantissa - (if d.mantissa = leastMantissa then 1 else 2) = lower at hlower ⊢
  generalize ratio ⟨1, d.exponent - 2⟩ = quarter at hunit hden ⊢
  generalize shift10 digits 1 (-k) = decimal at hx hden' ⊢
  have hupper := upper_eq d.mantissa
  by_cases heven : d.mantissa % 2 = 0
  · simp only [heven, if_true, Bool.and_eq_true_iff, decide_eq_true_iff]
    rw [quarters_le_iff hunit hx hden hden', le_quarters_iff hunit hx hden hden', hlower, hupper]
    exact ⟨fun h => ⟨h.1, h.2, fun hodd => by omega⟩, fun h => ⟨h.lower, h.upper⟩⟩
  · simp only [heven, if_false, Bool.and_eq_true_iff, decide_eq_true_iff, ← Nat.not_le]
    rw [quarters_le_iff hunit hx hden hden', le_quarters_iff hunit hx hden hden', hlower, hupper,
      not_le, not_le]
    exact ⟨fun h => ⟨h.1.le, h.2.le, fun _ => h⟩, fun h => h.inner (by omega)⟩

/-! ## What a quotient rounds to -/

/-- A quotient is rounded to an integer that is a half away at most, and less if it is odd. -/
theorem roundHalfEven_near (num : Nat) (hden : 0 < den) :
    |(num : ℚ) / den - roundHalfEven num den| ≤ 1 / 2 ∧
      (roundHalfEven num den % 2 = 1 → |(num : ℚ) / den - roundHalfEven num den| < 1 / 2) := by
  have hpos : (0 : ℚ) < den := Nat.cast_pos.mpr hden
  have hsplit : (num : ℚ) / den = (num / den : Nat) + (num % den : Nat) / (den : ℚ) := by
    rw [← mul_div_cancel_right₀ ((num / den : Nat) : ℚ) hpos.ne', ← add_div, ← Nat.cast_mul,
      ← Nat.cast_add, Nat.div_add_mod']
  have hnonneg : (0 : ℚ) ≤ (num % den : Nat) / (den : ℚ) := by positivity
  have hone : ((num % den : Nat) : ℚ) / den < 1 :=
    (div_lt_one hpos).mpr (Nat.cast_lt.mpr (Nat.mod_lt num hden))
  have hbelow : 2 * (num % den) < den ↔ ((num % den : Nat) : ℚ) / den < 1 / 2 := by
    rw [div_lt_div_iff₀ hpos two_pos, one_mul, mul_comm]
    norm_cast
  have habove : den < 2 * (num % den) ↔ 1 / 2 < ((num % den : Nat) : ℚ) / den := by
    rw [div_lt_div_iff₀ two_pos hpos, one_mul, mul_comm ((num % den : Nat) : ℚ)]
    norm_cast
  rw [hsplit]
  unfold roundHalfEven
  dsimp only
  simp only [gt_iff_lt, hbelow, habove]
  generalize ((num % den : Nat) : ℚ) / den = fraction at hnonneg hone
  generalize num / den = q
  split_ifs with hlt hgt heven
  all_goals simp only [abs_le, abs_lt]; push_cast
  · exact ⟨⟨by linarith, by linarith⟩, fun _ => ⟨by linarith, by linarith⟩⟩
  · exact ⟨⟨by linarith, by linarith⟩, fun _ => ⟨by linarith, by linarith⟩⟩
  · exact ⟨⟨by linarith, by linarith⟩, fun hodd => by omega⟩
  · exact ⟨⟨by linarith, by linarith⟩, fun hodd => by omega⟩

/-- Between two integers the nearest one is between them, or one of them. -/
theorem near_bounds {a b q : Nat} (h : |y - q| ≤ 1 / 2) (ha : a ≤ y) (hb : y < b) :
    a ≤ q ∧ q ≤ b := by
  obtain ⟨hlo, hhi⟩ := abs_le.mp h
  have hlt : (a : ℚ) < (q + 1 : Nat) := by
    push_cast
    linarith
  have hlt' : (q : ℚ) < (b + 1 : Nat) := by
    push_cast
    linarith
  exact ⟨Nat.lt_succ_iff.mp (Nat.cast_lt.mp hlt), Nat.lt_succ_iff.mp (Nat.cast_lt.mp hlt')⟩

/-- The logarithms of its terms tell the binade of a quotient, or the one above. -/
theorem log_bounds (hnum : num ≠ 0) (hden : den ≠ 0) :
    (2 : ℚ) ^ 51 < num / den / 2 ^ ((num.log2 : Int) - den.log2 - 52) ∧
      (num : ℚ) / den / 2 ^ ((num.log2 : Int) - den.log2 - 52) < 2 ^ 53 := by
  have hpos : (0 : ℚ) < den := Nat.cast_pos.mpr (Nat.pos_of_ne_zero hden)
  have hnumlo : (2 : ℚ) ^ num.log2 ≤ num := by exact_mod_cast Nat.log2_self_le hnum
  have hnumhi : (num : ℚ) < 2 ^ num.log2 * 2 := by exact_mod_cast Nat.lt_log2_self (n := num)
  have hdenlo : (2 : ℚ) ^ den.log2 ≤ den := by exact_mod_cast Nat.log2_self_le hden
  have hdenhi : (den : ℚ) < 2 ^ den.log2 * 2 := by exact_mod_cast Nat.lt_log2_self (n := den)
  have hscale : (2 : ℚ) ^ ((num.log2 : Int) - den.log2 - 52) =
      2 ^ num.log2 / 2 ^ den.log2 / 2 ^ 52 := by
    rw [zpow_sub₀ two_ne_zero, zpow_sub₀ two_ne_zero, zpow_natCast, zpow_natCast]
    norm_num
  rw [hscale]
  have ha : (0 : ℚ) < 2 ^ num.log2 := by positivity
  have hb : (0 : ℚ) < 2 ^ den.log2 := by positivity
  generalize (2 : ℚ) ^ num.log2 = a at *
  generalize (2 : ℚ) ^ den.log2 = b at *
  have hnumpos := ha.trans_le hnumlo
  have hlower : (2 : ℚ) ^ 51 * (a / b / 2 ^ 52) = a / (b * 2) := by
    field_simp
  have hupper : (2 : ℚ) ^ 53 * (a / b / 2 ^ 52) = a * 2 / b := by
    field_simp
  rw [lt_div_iff₀ (by positivity), div_lt_iff₀ (by positivity), hlower, hupper,
    div_lt_div_iff₀ (by positivity) hpos, div_lt_div_iff₀ hpos hb]
  constructor
  · calc a * den ≤ num * den := mul_le_mul_of_nonneg_right hnumlo hpos.le
      _ < num * (b * 2) := mul_lt_mul_of_pos_left hdenhi hnumpos
  · calc num * b ≤ num * den := mul_le_mul_of_nonneg_left hdenlo hnumpos.le
      _ < a * 2 * den := mul_lt_mul_of_pos_right hnumhi hpos

/-- The exponent that a quotient is rounded at is that of its binade. -/
theorem exists_binade (hnum : num ≠ 0) (hden : den ≠ 0) : ∃ e : Int,
    (leastMantissa : ℚ) ≤ num / den / 2 ^ e ∧ (num : ℚ) / den / 2 ^ e < 2 * leastMantissa ∧
    ofRatio num den =
      let q := roundHalfEven (shift num den e).1 (shift num den e).2
      if q = 2 * leastMantissa then ⟨leastMantissa, e + 1⟩ else ⟨q, e⟩ := by
  obtain ⟨hlo, hhi⟩ := log_bounds hnum hden
  unfold ofRatio
  rw [if_neg hnum]
  dsimp only
  generalize ((num.log2 : Int) - den.log2 - 52) = guess at *
  have hdenpos := shift_pos (Nat.pos_of_ne_zero hden) num guess
  have hfloor : (shift num den guess).1 / (shift num den guess).2 < leastMantissa ↔
      (num : ℚ) / den / 2 ^ guess < leastMantissa := by
    rw [Nat.div_lt_iff_lt_mul hdenpos, ← shift_eq, div_lt_iff₀ (Nat.cast_pos.mpr hdenpos)]
    norm_cast
  have hleast := leastMantissa_eq
  by_cases hlt : (num : ℚ) / den / 2 ^ guess < leastMantissa
  · have hhalf : (num : ℚ) / den / 2 ^ (guess - 1) = 2 * (num / den / 2 ^ guess) := by
      rw [zpow_sub_one₀ two_ne_zero]
      field_simp
    refine ⟨guess - 1, ?_, ?_, ?_⟩
    · rw [hhalf]
      linarith
    · rw [hhalf]
      linarith
    · simp only [hfloor, hlt, if_true]
  · refine ⟨guess, not_lt.mp hlt, by linarith, ?_⟩
    simp only [hfloor, hlt, if_false]

/-- Within a binade a number rounds to the nearest mantissa. -/
theorem nears_of_near {m : Nat} (hnear : |y - m| ≤ 1 / 2)
    (hodd : m % 2 = 1 → |y - m| < 1 / 2) (hle : leastMantissa ≤ y) : Nears m y := by
  obtain ⟨hlo, hhi⟩ := abs_le.mp hnear
  refine ⟨?_, by linarith, fun h => ?_⟩
  · unfold margin
    split
    · next hleast =>
      rw [hleast]
      linarith
    · linarith
  · obtain ⟨hlo, hhi⟩ := abs_lt.mp (hodd h)
    have hne : m ≠ leastMantissa := by
      rintro rfl
      exact absurd h leastMantissa_even
    rw [margin, if_neg hne]
    exact ⟨by linarith, by linarith⟩

/-- At the end of a binade it rounds to the least mantissa of the next one. -/
theorem nears_half (hnear : |y - (2 * leastMantissa : Nat)| ≤ 1 / 2)
    (hlt : y < 2 * leastMantissa) : Nears leastMantissa (y / 2) := by
  have hlo := (abs_le.mp hnear).1
  push_cast at hlo
  refine ⟨?_, by linarith, fun hodd => absurd hodd leastMantissa_even⟩
  rw [margin, if_pos rfl]
  linarith

/-- A quotient rounds to its double. -/
theorem ofRatio_rounds (hnum : num ≠ 0) (hden : den ≠ 0) :
    (ofRatio num den).Normal ∧ Rounds (ofRatio num den) (num / den) := by
  obtain ⟨e, hlo, hhi, hof⟩ := exists_binade hnum hden
  obtain ⟨hnear, hodd⟩ :=
    roundHalfEven_near (shift num den e).1 (shift_pos (Nat.pos_of_ne_zero hden) num e)
  rw [shift_eq] at hnear hodd
  have hbounds := near_bounds hnear hlo (b := 2 * leastMantissa) (by exact_mod_cast hhi)
  rw [hof]
  generalize roundHalfEven (shift num den e).1 (shift num den e).2 = q at *
  by_cases hq : q = 2 * leastMantissa
  · have hhalf : (num : ℚ) / den / 2 ^ (e + 1) = num / den / 2 ^ e / 2 := by
      rw [zpow_add_one₀ two_ne_zero, div_div _ (2 ^ e)]
    subst hq
    rw [if_pos rfl, Rounds, hhalf]
    exact ⟨⟨le_refl leastMantissa, lt_two_mul_self leastMantissa_pos⟩, nears_half hnear hhi⟩
  · dsimp only
    rw [if_neg hq]
    exact ⟨⟨hbounds.1, lt_of_le_of_ne hbounds.2 hq⟩, nears_of_near hnear hodd hlo⟩

theorem Normal.value_pos (hd : d.Normal) : 0 < d.value :=
  mul_pos (Nat.cast_pos.mpr (leastMantissa_pos.trans_le hd.least)) (two_zpow_pos _)

theorem Normal.ratio_ne_zero (hd : d.Normal) : d.ratio.1 ≠ 0 := by
  intro hzero
  have hvalue := hd.value_pos
  rw [← ratio_eq, hzero, Nat.cast_zero, zero_div] at hvalue
  exact hvalue.false

/-- A double that is divided is rounded once more. -/
theorem Normal.divide_rounds (hd : d.Normal) {divisor : Nat} (h : divisor ≠ 0) :
    (d.divide divisor).Normal ∧ Rounds (d.divide divisor) (d.value / divisor) := by
  have hrounds := ofRatio_rounds hd.ratio_ne_zero (Nat.mul_ne_zero d.ratio_pos.ne' h)
  rw [Nat.cast_mul, ← div_div, ratio_eq] at hrounds
  exact hrounds

/-! ## How far apart a number and its double are -/

/-- The last bit of a double, halved, in terms of the double. -/
theorem Normal.half_bit_le (hd : d.Normal) : 2 ^ d.exponent / 2 ≤ d.value / 2 ^ 53 := by
  have hleast : (2 : ℚ) ^ 52 ≤ d.mantissa := leastMantissa_eq ▸ Nat.cast_le.mpr hd.least
  have hvalue : 2 ^ 52 * 2 ^ d.exponent ≤ d.value :=
    mul_le_mul_of_nonneg_right hleast (two_zpow_pos _).le
  rw [le_div_iff₀ (by positivity)]
  linarith

/-- How far a number is from a double, in units of the last bit. -/
theorem abs_sub_value (d : Double) (x : ℚ) :
    |x - d.value| = |x / 2 ^ d.exponent - d.mantissa| * 2 ^ d.exponent := by
  have hpos := two_zpow_pos d.exponent
  rw [← abs_of_pos hpos, ← abs_mul, abs_of_pos hpos, sub_mul, div_mul_cancel₀ _ hpos.ne', value]

/-- A number differs from its double by half of the last bit at most. -/
theorem Rounds.abs_sub_value_le (hx : Rounds d x) : |x - d.value| ≤ 2 ^ d.exponent / 2 := by
  have hpos := two_zpow_pos d.exponent
  have hmargin := margin_le d.mantissa
  have hlower := hx.lower
  have hhalf : |x / 2 ^ d.exponent - d.mantissa| ≤ 1 / 2 :=
    abs_le.mpr ⟨by linarith, by linarith [hx.upper]⟩
  rw [abs_sub_value, div_eq_mul_one_div _ (2 : ℚ), mul_comm (2 ^ d.exponent : ℚ)]
  exact mul_le_mul_of_nonneg_right hhalf hpos.le

theorem Rounds.near (hd : d.Normal) (hx : Rounds d x) : |x - d.value| ≤ d.value / 2 ^ 53 :=
  hx.abs_sub_value_le.trans hd.half_bit_le

/-- Two numbers that round to one double differ by its last bit at most. -/
theorem Rounds.abs_sub_le_bit (hx : Rounds d x) (hy : Rounds d y) : |x - y| ≤ 2 ^ d.exponent :=
  calc |x - y| ≤ |x - d.value| + |d.value - y| := abs_sub_le x d.value y
    _ ≤ 2 ^ d.exponent / 2 + 2 ^ d.exponent / 2 :=
      add_le_add hx.abs_sub_value_le (abs_sub_comm d.value y ▸ hy.abs_sub_value_le)
    _ = 2 ^ d.exponent := add_halves _

/-- The interval of a double reaches so far to both sides. -/
theorem Normal.le_margin (hd : d.Normal) :
    d.value / 2 ^ 54 ≤ margin d.mantissa * 2 ^ d.exponent := by
  have hpos := two_zpow_pos d.exponent
  rw [div_le_iff₀ (by positivity), value, mul_right_comm]
  refine mul_le_mul_of_nonneg_right ?_ hpos.le
  unfold margin
  split
  · next h =>
    rw [h, leastMantissa_eq]
    norm_num
  · have hlt : (d.mantissa : ℚ) < 2 * 2 ^ 52 := by
      rw [← leastMantissa_eq]
      exact_mod_cast hd.lt
    linarith

/-- What is close enough to a double rounds to it. -/
theorem Normal.rounds_of_near (hd : d.Normal) (h : |x - d.value| < d.value / 2 ^ 54) :
    Rounds d x := by
  have hpos := two_zpow_pos d.exponent
  have hlt := h.trans_le hd.le_margin
  rw [abs_sub_value] at hlt
  obtain ⟨hlo, hhi⟩ := abs_lt.mp (lt_of_mul_lt_mul_right hlt hpos.le)
  have hmargin := margin_le d.mantissa
  exact ⟨by linarith, by linarith, fun _ => ⟨by linarith, by linarith⟩⟩

/-- The interval of a double begins a quarter below the least mantissa or further up. -/
theorem Normal.lower_bound (hd : d.Normal) :
    (2 : ℚ) ^ 52 - 1 / 4 ≤ d.mantissa - margin d.mantissa := by
  rw [← leastMantissa_eq, margin]
  split
  · next h => rw [h]
  · next h =>
    have hlt : ((leastMantissa + 1 : Nat) : ℚ) ≤ d.mantissa :=
      Nat.cast_le.mpr (lt_of_le_of_ne hd.least (Ne.symm h))
    push_cast at hlt
    linarith

/-- A whole number that fits the mantissa is its double. -/
theorem value_ofRatio_one {n : Nat} (hne : n ≠ 0) (hlt : n < 2 ^ 53) :
    (ofRatio n 1).value = n := by
  obtain ⟨hd, hrounds⟩ := ofRatio_rounds hne one_ne_zero
  rw [Nat.cast_one, div_one] at hrounds
  generalize ofRatio n 1 = d at *
  have hlower := hrounds.lower
  have hexponent : d.exponent ≤ 0 := by
    by_contra hpos
    have htwo : (2 : ℚ) ^ (1 : Int) ≤ 2 ^ d.exponent := zpow_le_zpow_right₀ one_le_two (by omega)
    have hle : ((n + 1 : Nat) : ℚ) ≤ (2 ^ 53 : Nat) := Nat.cast_le.mpr hlt
    have hbound := (hd.lower_bound.trans hlower).trans
      (div_le_div_of_nonneg_left n.cast_nonneg two_pos htwo)
    push_cast at hle
    linarith
  -- in units of the last bit it is a whole number as well
  obtain ⟨shift, hshift⟩ := Int.eq_ofNat_of_zero_le (neg_nonneg.mpr hexponent)
  have hscale : (n : ℚ) / 2 ^ d.exponent = (n * 2 ^ shift : Nat) := by
    rw [← neg_neg d.exponent, hshift, zpow_neg, div_inv_eq_mul]
    push_cast
    rw [zpow_natCast]
  have heq : n * 2 ^ shift = d.mantissa := by
    have hupper := hrounds.upper
    have hmargin := margin_le d.mantissa
    rw [hscale] at hlower hupper
    have hle : ((n * 2 ^ shift : Nat) : ℚ) < (d.mantissa + 1 : Nat) := by
      rw [Nat.cast_add_one]
      linarith
    have hge : (d.mantissa : ℚ) < (n * 2 ^ shift + 1 : Nat) := by
      rw [Nat.cast_add_one]
      linarith
    exact le_antisymm (Nat.lt_succ_iff.mp (Nat.cast_lt.mp hle))
      (Nat.lt_succ_iff.mp (Nat.cast_lt.mp hge))
  rw [value, ← heq, ← hscale, div_mul_cancel₀ _ (two_zpow_pos _).ne']

end JobOperator.Double
