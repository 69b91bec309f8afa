import JobOperator.Proofs.Decimal.Literal
import JobOperator.Proofs.Decimal.Rounding

/-!
# The fewest digits of a double

A double is written with the first count of digits that is enough to tell it from all others.

* `Double.place`: how far to the left the digits begin. `Double.below`: the digits up to a place.
* `Double.withDigits?_isSome`: digits up to a place are enough if anything with such digits rounds
  to the double; seventeen digits are (`Double.withDigits?_seventeen`).
* `Double.shortest_rounds`: what is written rounds to the double.
* `Double.shortest_eq`: a decimal that rounds to the double, and whose last digit counts for more
  than the last bit, is what is written.
-/

namespace JobOperator.Double

variable {d : Double} {num den a count : Nat} {j k : Int}

/-! ## Where the digits begin -/

/-- The least power of ten that the double stays below. -/
def place (d : Double) : Int := magnitude d.ratio.1 d.ratio.2

theorem ten_zpow_pos (k : Int) : (0 : ℚ) < 10 ^ k := zpow_pos (by norm_num) k

theorem magnitude_bounds_of_le (hden : 0 < den) (h : den ≤ num) :
    (10 : ℚ) ^ (magnitude num den - 1) ≤ num / den ∧ (num : ℚ) / den < 10 ^ magnitude num den := by
  have hdenpos : (0 : ℚ) < den := Nat.cast_pos.mpr hden
  obtain ⟨places, hlength, hlo, hhi⟩ := Digits.exists_places (Nat.div_pos h hden).ne'
  rw [Nat.le_div_iff_mul_le hden] at hlo
  rw [Nat.div_lt_iff_lt_mul hden] at hhi
  rw [magnitude, if_pos h, hlength, Nat.cast_add_one, add_sub_cancel_right, zpow_natCast,
    zpow_add_one₀ (by norm_num), zpow_natCast, le_div_iff₀ hdenpos, div_lt_iff₀ hdenpos]
  exact ⟨by exact_mod_cast hlo, by exact_mod_cast hhi⟩

theorem magnitude_bounds_of_lt (hnum : 0 < num) (h : num < den) :
    (10 : ℚ) ^ (magnitude num den - 1) ≤ num / den ∧ (num : ℚ) / den < 10 ^ magnitude num den := by
  have hnumpos : (0 : ℚ) < num := Nat.cast_pos.mpr hnum
  have hdenpos : (0 : ℚ) < den := Nat.cast_pos.mpr (hnum.trans h)
  obtain ⟨places, hlength, hlo, hhi⟩ := Digits.exists_places (Nat.div_pos h.le hnum).ne'
  rw [Nat.le_div_iff_mul_le hnum] at hlo
  rw [Nat.div_lt_iff_lt_mul hnum] at hhi
  have hpower : (0 : ℚ) < 10 ^ places := by positivity
  have hscale (i : Int) : (10 : ℚ) ^ (i - places) = 10 ^ i / 10 ^ places := by
    rw [zpow_sub₀ (by norm_num), zpow_natCast]
  rw [magnitude, if_neg h.not_ge, hlength]
  dsimp only [Nat.pow_eq]
  rw [Nat.add_sub_cancel]
  by_cases heq : num * 10 ^ places = den
  · -- a power of ten has its first digit one place further up than what is next to it
    have hden : (den : ℚ) = num * 10 ^ places := by exact_mod_cast heq.symm
    rw [if_pos heq, show 2 - ((places + 1 : Nat) : Int) - 1 = 0 - places by omega,
      show 2 - ((places + 1 : Nat) : Int) = 1 - places by omega, hscale, hscale, zpow_zero,
      zpow_one, hden, div_mul_cancel_left₀ hnumpos.ne', one_div, div_eq_mul_inv]
    exact ⟨le_rfl, lt_mul_left (inv_pos.mpr hpower) (by norm_num)⟩
  · have hlo' : (10 : ℚ) ^ places * num < den := by
      rw [mul_comm] at heq
      exact_mod_cast lt_of_le_of_ne hlo heq
    have hhi' : (den : ℚ) < 10 ^ places * 10 * num := by exact_mod_cast hhi
    rw [if_neg heq, show 1 - ((places + 1 : Nat) : Int) - 1 = -1 - places by omega,
      show 1 - ((places + 1 : Nat) : Int) = 0 - places by omega, hscale, hscale, zpow_zero,
      zpow_neg_one, div_le_div_iff₀ hpower hdenpos, div_lt_div_iff₀ hdenpos hpower]
    exact ⟨by linarith, by linarith⟩

/-- The first digit of a double stands in front of its place. -/
theorem place_bounds (hd : d.Normal) :
    (10 : ℚ) ^ (d.place - 1) ≤ d.value ∧ d.value < 10 ^ d.place := by
  rw [← ratio_eq]
  rcases le_or_gt d.ratio.2 d.ratio.1 with hle | hlt
  · exact magnitude_bounds_of_le d.ratio_pos hle
  · exact magnitude_bounds_of_lt (Nat.pos_of_ne_zero hd.ratio_ne_zero) hlt

/-! ## Digits up to a place -/

/-- The digits of the double up to a place. -/
def below (d : Double) (k : Int) : Nat :=
  (shift10 d.ratio.1 d.ratio.2 k).1 / (shift10 d.ratio.1 d.ratio.2 k).2

theorem shift10_ratio (d : Double) (k : Int) :
    ((shift10 d.ratio.1 d.ratio.2 k).1 : ℚ) / (shift10 d.ratio.1 d.ratio.2 k).2 =
      d.value / 10 ^ k := by
  rw [shift10_eq, ratio_eq]

theorem le_below_iff : a ≤ d.below k ↔ a * 10 ^ k ≤ d.value := by
  have hpos := shift10_pos d.ratio_pos d.ratio.1 k
  rw [← le_div_iff₀ (ten_zpow_pos k), ← shift10_ratio, le_div_iff₀ (Nat.cast_pos.mpr hpos), below,
    Nat.le_div_iff_mul_le hpos]
  norm_cast

/-- If a decimal that ends at a place rounds to the double, so does one of those next to it. -/
theorem Rounds.below_or_succ (h : Rounds d (a * 10 ^ k)) :
    Rounds d (d.below k * 10 ^ k) ∨ Rounds d ((d.below k + 1 : Nat) * 10 ^ k) := by
  have hpos := ten_zpow_pos k
  by_cases hle : a ≤ d.below k
  · refine .inl (h.between d.rounds_value ?_ (le_below_iff.mp le_rfl))
    exact mul_le_mul_of_nonneg_right (Nat.cast_le.mpr hle) hpos.le
  · have hlt : d.value < (d.below k + 1 : Nat) * 10 ^ k :=
      not_le.mp fun hle => absurd (le_below_iff.mpr hle) (by omega)
    refine .inr (d.rounds_value.between h hlt.le ?_)
    exact mul_le_mul_of_nonneg_right (Nat.cast_le.mpr (not_le.mp hle)) hpos.le

/-- Digits up to a place are enough if something with such digits rounds to the double. -/
theorem withDigits?_isSome (hd : d.Normal) (h : Rounds d (a * 10 ^ (d.place - count))) :
    (d.withDigits? count).isSome := by
  have hreads := h.below_or_succ
  rw [← reads_iff hd, ← reads_iff hd] at hreads
  unfold withDigits?
  dsimp only
  rw [← place, ← below]
  rcases hreads with hfirst | hsecond
  · rw [hfirst]
    cases d.reads (d.below (d.place - count) + 1) (d.place - count)
    · rfl
    · dsimp only
      split <;> rfl
  · rw [hsecond]
    cases d.reads (d.below (d.place - count)) (d.place - count)
    · rfl
    · dsimp only
      split <;> rfl

/-- What is found with so many digits has so many digits, and rounds to the double. -/
theorem rounds_of_withDigits? (hd : d.Normal) (h : d.withDigits? count = some (a, k)) :
    k = d.place - count ∧ Rounds d (a * 10 ^ k) := by
  rw [← reads_iff hd]
  unfold withDigits? at h
  dsimp only at h
  rw [← place, ← below] at h
  split at h
  · next hfirst hsecond =>
    split at h
    · cases h
      exact ⟨rfl, hfirst⟩
    · cases h
      exact ⟨rfl, hsecond⟩
  · next hfirst _ =>
    cases h
    exact ⟨rfl, hfirst⟩
  · next hsecond =>
    cases h
    exact ⟨rfl, hsecond⟩
  · cases h

/-- Among the decimals that end at a place one is close to the double. -/
theorem exists_near (d : Double) (k : Int) : ∃ a : Nat, |a * 10 ^ k - d.value| ≤ 10 ^ k / 2 := by
  have hpos := ten_zpow_pos k
  have hnear := (roundHalfEven_near (shift10 d.ratio.1 d.ratio.2 k).1
    (shift10_pos d.ratio_pos d.ratio.1 k)).1
  rw [shift10_ratio] at hnear
  generalize roundHalfEven _ _ = a at hnear
  have hscale : a * 10 ^ k - d.value = (a - d.value / 10 ^ k) * 10 ^ k := by
    rw [sub_mul, div_mul_cancel₀ _ hpos.ne']
  refine ⟨a, ?_⟩
  rw [hscale, abs_mul, abs_of_pos hpos, abs_sub_comm, ← one_div_mul_eq_div (2 : ℚ)]
  exact mul_le_mul_of_nonneg_right hnear hpos.le

/-- Seventeen digits are always enough. -/
theorem withDigits?_seventeen (hd : d.Normal) : (d.withDigits? 17).isSome := by
  obtain ⟨a, ha⟩ := d.exists_near (d.place - 17)
  refine withDigits?_isSome (a := a) hd (hd.rounds_of_near ?_)
  have hplace : (10 : ℚ) ^ (d.place - 17) * 10 ^ 16 = 10 ^ (d.place - 1) := by
    rw [← zpow_natCast, ← zpow_add₀ (by norm_num)]
    congr 1
    omega
  have hvalue := hd.value_pos
  calc |a * 10 ^ (d.place - 17) - d.value| ≤ 10 ^ (d.place - 17) / 2 := ha
    _ ≤ d.value / (2 * 10 ^ 16) := by
      rw [div_le_div_iff₀ two_pos (by norm_num)]
      linarith [(place_bounds hd).1]
    _ < d.value / 2 ^ 54 := div_lt_div_of_pos_left hvalue (by norm_num) (by norm_num)

/-! ## What is written -/

/-- The first count of digits that is enough is taken. -/
theorem shortest_spec (hd : d.Normal) : ∃ count, d.withDigits? count = some d.shortest ∧
    ∀ fewer < count, fewer ≠ 0 → d.withDigits? fewer = none := by
  have hsome : ((List.range 17).findSome? fun n => d.withDigits? (n + 1)).isSome :=
    List.findSome?_isSome_iff.mpr ⟨16, by decide, withDigits?_seventeen hd⟩
  obtain ⟨found, hfound⟩ := Option.isSome_iff_exists.mp hsome
  obtain ⟨before, n, after, hrange, hn, hbefore⟩ := List.findSome?_eq_some_iff.mp hfound
  rw [List.range_eq_range'] at hrange
  obtain ⟨start, -, rfl, hrest⟩ := List.range'_eq_append_iff.mp hrange
  obtain ⟨hstart, -, -⟩ := List.range'_eq_cons_iff.mp hrest.symm
  refine ⟨n + 1, ?_, fun fewer hfewer hne => ?_⟩
  · rw [hn, shortest, hfound]
    rfl
  · obtain ⟨i, rfl⟩ := Nat.exists_eq_add_one_of_ne_zero hne
    refine hbefore i (List.mem_range'_1.mpr ?_)
    omega

/-- What is written rounds to the double. -/
theorem shortest_rounds (hd : d.Normal) : Rounds d (d.shortest.1 * 10 ^ d.shortest.2) := by
  obtain ⟨count, hfound, -⟩ := shortest_spec hd
  exact (rounds_of_withDigits? hd hfound).2

/-- A decimal can be written with more places than it needs. -/
theorem exists_mul_zpow {i : Int} (h : i ≤ j) (a : Nat) :
    ∃ b : Nat, (a : ℚ) * 10 ^ j = b * 10 ^ i := by
  obtain ⟨zeros, rfl⟩ := Int.le.dest h
  refine ⟨a * 10 ^ zeros, ?_⟩
  rw [zpow_add₀ (by norm_num), zpow_natCast, Nat.cast_mul, Nat.cast_pow, Nat.cast_ofNat, mul_assoc,
    mul_comm ((10 : ℚ) ^ i)]

/-- What is written has no more places than what rounds to the double, or a single digit. -/
theorem min_le_shortest (hd : d.Normal) (h : Rounds d (a * 10 ^ j)) :
    min j (d.place - 1) ≤ d.shortest.2 := by
  obtain ⟨count, hfound, hnone⟩ := shortest_spec hd
  have hk : d.shortest.2 = d.place - count := (rounds_of_withDigits? hd hfound).1
  obtain ⟨fewer, hfewer⟩ := Int.eq_ofNat_of_zero_le
    (show 0 ≤ d.place - min j (d.place - 1) by omega)
  obtain ⟨b, hb⟩ := exists_mul_zpow (show d.place - fewer ≤ j by omega) a
  have hsome := withDigits?_isSome hd (hb ▸ h)
  by_contra hlt
  rw [hnone fewer (by omega) (by omega)] at hsome
  cases hsome

/-- Decimals that end at the same place are equal, or they differ by what counts there. -/
theorem eq_of_abs_sub_lt {m n : Nat} {u : ℚ} (h : |m * u - n * u| < u) : m = n := by
  have hpos := (abs_nonneg _).trans_lt h
  rw [← sub_mul, abs_mul, abs_of_pos hpos] at h
  have hlt : |((m - n : Int) : ℚ)| < 1 := by
    push_cast
    exact lt_of_mul_lt_mul_right (h.trans_eq (one_mul u).symm) hpos.le
  have hzero : (m - n : Int) = 0 := Int.abs_lt_one_iff.mp (by exact_mod_cast hlt)
  omega

/-- **A decimal that rounds to the double is written** if its last digit counts for more than the
last bit. -/
theorem shortest_eq (hd : d.Normal) (h : Rounds d (a * 10 ^ j))
    (hbit : (2 : ℚ) ^ d.exponent < 10 ^ j) :
    d.shortest.1 * 10 ^ d.shortest.2 = (a * 10 ^ j : ℚ) := by
  have hfirst : (2 : ℚ) ^ d.exponent < 10 ^ (d.place - 1) := by
    rw [zpow_sub_one₀ (by norm_num)]
    linarith [hd.half_bit_le, (place_bounds hd).2, ten_zpow_pos d.place]
  have hgrid : (2 : ℚ) ^ d.exponent < 10 ^ min j (d.place - 1) := by
    rcases min_choice j (d.place - 1) with hmin | hmin
    · rwa [hmin]
    · rwa [hmin]
  obtain ⟨m, hm⟩ := exists_mul_zpow (min_le_shortest hd h) d.shortest.1
  obtain ⟨n, hn⟩ := exists_mul_zpow (min_le_left j (d.place - 1)) a
  have hshortest := shortest_rounds hd
  rw [hn] at h
  rw [hm] at hshortest
  rw [hm, hn, eq_of_abs_sub_lt ((hshortest.abs_sub_le_bit h).trans_lt hgrid)]

/-- The text of a double names what it is written with. -/
theorem Normal.names_render (hd : d.Normal) :
    Literal.Names d.render (d.shortest.1 * 10 ^ d.shortest.2) := by
  have hne : d.mantissa ≠ 0 := (leastMantissa_pos.trans_le hd.least).ne'
  rw [render, if_neg hne]
  exact names_positional ..

end JobOperator.Double
