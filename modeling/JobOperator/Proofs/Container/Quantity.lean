import JobOperator.Container.Podman
import JobOperator.Proofs.Decimal.Shortest

/-!
# What the limits ask for, and what the host is told

A limit on processors is a number, or a number of thousandths. Both are turned into a text for the
host, and this text names a number again.

* `Quantity.Asks`: how many processors a text asks for.
* `Quantity.names_ofThousandths`: thousandths are **told exactly** below `10 ^ 15` of them, and
  closely in any number (`Quantity.near_ofThousandths`).
* `Quantity.Meaningful`: the host is told what was asked for, a number that it can act on.
* `Quantity.limits_meaningful_iff`: it is told nothing else, **unless no thousandths or boundlessly
  many processors** are asked for.
* `Quantity.not_limits_meaningful`: no thousandths are told as they stand.
-/

namespace JobOperator.Quantity

open Literal (Names)

variable {q v : String} {n : Nat} {x y : ℚ}

/-! ## What is asked for -/

/-- The text is a number of thousandths. -/
def Thousandths (q : String) (n : Nat) : Prop :=
  ∃ front, Text.trim q = front ++ "m" ∧ Digits.unsigned? UInt64.size front = some n

/-- The text is a literal, and no number of thousandths. -/
structure Plain (q : String) (l : Literal) : Prop where
  unit : ∀ front, Text.trim q ≠ front ++ "m"
  literal : Literal.parse? (Text.trim q) = some l

/-- The text asks for so many processors. -/
inductive Asks (q : String) : ℚ → Prop
  | thousandths {n : Nat} (h : Thousandths q n) : Asks q (n / 1000)
  | whole {d : Decimal} (h : Plain q (.finite d)) : Asks q d.value

/-- The host is told what was asked for, a positive number for which there is a double. From
`10 ^ 15` thousandths on, what it is told is close to that. -/
def Meaningful (q v : String) : Prop :=
  ∃ x y, Asks q x ∧ 0 < x ∧ x < Decimal.overflow ∧ Names v y ∧
    (y = x ∨ ∃ n, Thousandths q n ∧ 10 ^ 15 ≤ n ∧ |y - x| ≤ x / 2 ^ 51)

/-- The text asks for no processors, in thousandths, or for more than there is a double for. -/
def Senseless (q : String) : Prop :=
  Thousandths q 0 ∨ Plain q (.infinite false) ∨
    ∃ d, Plain q (.finite d) ∧ Decimal.overflow ≤ d.value

/-- The text is an amount of memory: a whole number of a unit that the host has a letter for. -/
structure Amount (q : String) (n : Nat) (letter : String) : Prop where
  lt : n < UInt64.size
  text : ∃ digits unit, Text.trim q = digits ++ unit ∧ Digits.natural? digits.toList = some n ∧
    memoryUnit? unit = some letter

theorem Thousandths.unique {m : Nat} (hn : Thousandths q n) (hm : Thousandths q m) : n = m := by
  obtain ⟨front, htrim, hread⟩ := hn
  obtain ⟨front', htrim', hread'⟩ := hm
  obtain rfl := (String.append_left_inj _).mp (htrim.symm.trans htrim')
  exact Option.some.inj (hread.symm.trans hread')

theorem Thousandths.lt (h : Thousandths q n) : n < UInt64.size := by
  obtain ⟨front, -, hread⟩ := h
  exact of_decide_eq_true (Option.filter_eq_some_iff.mp hread).2

theorem Plain.unique {l l' : Literal} (h : Plain q l) (h' : Plain q l') : l = l' :=
  Option.some.inj (h.literal.symm.trans h'.literal)

theorem Plain.not_thousandths {l : Literal} (h : Plain q l) : ¬ Thousandths q n :=
  fun ⟨front, htrim, _⟩ => h.unit front htrim

/-- A text asks for one number of processors at most. -/
theorem Asks.unique (hx : Asks q x) (hy : Asks q y) : x = y := by
  cases hx with
  | thousandths hn =>
    cases hy with
    | thousandths hm => rw [hn.unique hm]
    | whole hd => exact absurd hn hd.not_thousandths
  | whole hd =>
    cases hy with
    | thousandths hm => exact absurd hm hd.not_thousandths
    | whole hd' =>
      cases hd.unique hd'
      rfl

/-! ## Thousandths -/

/-- Thousandths are rounded to a double, and that is written. -/
theorem exists_ofThousandths (hpos : n ≠ 0) : ∃ d : Double, d.Normal ∧ ofThousandths n = d.render ∧
    d.Rounds ((Double.ofRatio n 1).value / 1000) := by
  obtain ⟨hd, -⟩ := Double.ofRatio_rounds hpos one_ne_zero
  obtain ⟨hnormal, hrounds⟩ := hd.divide_rounds (show 1000 ≠ 0 by decide)
  exact ⟨_, hnormal, rfl, hrounds⟩

/-- **Thousandths are told exactly**, if there are not too many of them. -/
theorem names_ofThousandths (hpos : n ≠ 0) (hlt : n < 10 ^ 15) :
    Names (ofThousandths n) (n / 1000) := by
  obtain ⟨d, hd, htext, hrounds⟩ := exists_ofThousandths hpos
  rw [Double.value_ofRatio_one hpos (hlt.trans (by decide))] at hrounds
  have hplace : (10 : ℚ) ^ (-3 : Int) = 1 / 1000 := by norm_num
  have hscale : (n : ℚ) / 1000 = n * 10 ^ (-3 : Int) := by rw [hplace, mul_one_div]
  have hbit : (2 : ℚ) ^ d.exponent < 10 ^ (-3 : Int) := by
    have hbound : (n : ℚ) < 10 ^ 15 := by exact_mod_cast hlt
    have hnear := (abs_le.mp (hrounds.near hd)).1
    have hhalf := hd.half_bit_le
    rw [hplace]
    linarith
  rw [htext, hscale, ← Double.shortest_eq hd (hscale ▸ hrounds) hbit]
  exact hd.names_render

/-- However many thousandths there are, something close is told. -/
theorem near_ofThousandths (hpos : n ≠ 0) :
    ∃ y, Names (ofThousandths n) y ∧ |y - n / 1000| ≤ n / 1000 / 2 ^ 51 := by
  obtain ⟨d, hd, htext, hrounds⟩ := exists_ofThousandths hpos
  obtain ⟨hwhole, hwholeRounds⟩ := Double.ofRatio_rounds hpos one_ne_zero
  refine ⟨_, htext ▸ hd.names_render, ?_⟩
  rw [Nat.cast_one, div_one] at hwholeRounds
  -- three times something is rounded: the number, its thousandth, and what is written
  obtain ⟨hbelow, habove⟩ := abs_le.mp (hwholeRounds.near hwhole)
  obtain ⟨hbelow', habove'⟩ := abs_le.mp (hrounds.near hd)
  obtain ⟨hbelow'', habove''⟩ := abs_le.mp ((Double.shortest_rounds hd).near hd)
  exact abs_le.mpr ⟨by linarith, by linarith⟩

/-! ## What the host is told -/

/-- A text is cut in front of its last character. -/
theorem before?_eq_some_iff {last : Char} {s front : String} :
    before? last s = some front ↔ s = front ++ String.singleton last := by
  have htext : s = front ++ String.singleton last ↔ s.toList = front.toList ++ [last] := by
    rw [← String.toList_inj, String.toList_append, String.toList_singleton]
  rw [htext, before?, Option.ite_none_right_eq_some, Option.some.injEq]
  constructor
  · rintro ⟨hlast, rfl⟩
    obtain ⟨cs, hcs⟩ := List.getLast?_eq_some_iff.mp hlast
    rw [hcs, List.dropLast_concat, String.toList_ofList]
  · intro hs
    rw [hs, List.getLast?_concat, List.dropLast_concat, String.ofList_toList]
    exact ⟨rfl, rfl⟩

/-- Thousandths are told as a number, and a literal as it stands. -/
theorem processors?_eq_some_iff : processors? q = some v ↔
    (∃ n, Thousandths q n ∧ v = ofThousandths n) ∨
      ∃ l, Plain q l ∧ l.positive = true ∧ v = Text.trim q := by
  unfold processors?
  dsimp only
  cases hbefore : before? 'm' (Text.trim q) with
  | some front =>
    have htrim : Text.trim q = front ++ "m" := before?_eq_some_iff.mp hbefore
    dsimp only
    rw [Option.map_eq_some_iff]
    constructor
    · rintro ⟨n, hn, rfl⟩
      exact .inl ⟨n, ⟨front, htrim, hn⟩, rfl⟩
    · rintro (⟨n, ⟨front', htrim', hn⟩, rfl⟩ | ⟨l, hplain, -⟩)
      · obtain rfl := (String.append_left_inj _).mp (htrim.symm.trans htrim')
        exact ⟨n, hn, rfl⟩
      · exact absurd htrim (hplain.unit front)
  | none =>
    have hunit : ∀ front, Text.trim q ≠ front ++ "m" := fun front htrim => by
      rw [before?_eq_some_iff.mpr htrim] at hbefore
      cases hbefore
    dsimp only
    constructor
    · intro h
      split at h
      · next l hparse =>
        split at h
        · next hpositive =>
          cases h
          exact .inr ⟨l, ⟨hunit, hparse⟩, hpositive, rfl⟩
        · cases h
      · cases h
    · rintro (⟨n, ⟨front, htrim, -⟩, -⟩ | ⟨l, ⟨-, hparse⟩, hpositive, rfl⟩)
      · exact absurd htrim (hunit front)
      · rw [hparse]
        exact if_pos hpositive

/-- No unit of memory begins with a digit, and its letter is one of four. -/
theorem memoryUnit?_spec {unit letter : String} (h : memoryUnit? unit = some letter) :
    (∀ c, unit.toList.head? = some c → Digits.isDigit c = false) ∧
      letter ∈ ["b", "k", "m", "g"] := by
  have hunit : unit.toList.head?.any Digits.isDigit = false ∧ letter ∈ ["b", "k", "m", "g"] := by
    unfold memoryUnit? at h
    split at h <;> cases h <;> decide
  refine ⟨fun c hc => ?_, hunit.2⟩
  rw [hc] at hunit
  exact hunit.1

/-- An amount of memory is told with the host's letter, and nothing else is. -/
theorem memory?_eq_some_iff : memory? q = some v ↔
    ∃ n letter, Amount q n letter ∧ v = toString n ++ letter := by
  unfold memory?
  simp only [Option.bind_eq_bind, Option.bind_eq_some_iff, Option.filter_eq_some_iff,
    decide_eq_true_iff, Option.pure_def, Option.some.injEq]
  constructor
  · rintro ⟨n, ⟨hdigits, hlt⟩, letter, hunit, rfl⟩
    refine ⟨n, letter, ⟨hlt, String.ofList ((Text.trim q).toList.takeWhile Digits.isDigit), _, ?_,
      ?_, hunit⟩, rfl⟩
    · rw [← String.ofList_append, List.takeWhile_append_dropWhile, String.ofList_toList]
    · rw [String.toList_ofList]
      exact hdigits
  · rintro ⟨n, letter, ⟨hlt, digits, unit, htrim, hdigits, hunit⟩, rfl⟩
    obtain ⟨-, hall, hvalue⟩ := Digits.natural?_eq_some_iff.mp hdigits
    have hspells : Digits.Spells digits.toList digits.toList.length n := ⟨rfl, hall, hvalue⟩
    have hhead := (memoryUnit?_spec hunit).1
    rw [htrim, String.toList_append, hspells.takeWhile hhead, hspells.dropWhile hhead,
      String.ofList_toList]
    exact ⟨n, ⟨hdigits, hlt⟩, letter, hunit, rfl⟩

/-- What is told of thousandths is meaningful, unless there are none. -/
theorem meaningful_ofThousandths (hn : Thousandths q n) (hne : n ≠ 0) :
    Meaningful q (ofThousandths n) := by
  have hpos : (0 : ℚ) < n := Nat.cast_pos.mpr (Nat.pos_of_ne_zero hne)
  have hbound : (n : ℚ) / 1000 < Decimal.overflow :=
    calc (n : ℚ) / 1000 ≤ n := div_le_self hpos.le (by norm_num)
      _ < 2 ^ 64 := by exact_mod_cast hn.lt
      _ ≤ 2 ^ 970 := pow_le_pow_right₀ one_le_two (by decide)
      _ ≤ Decimal.overflow := Decimal.le_overflow
  by_cases hmany : n < 10 ^ 15
  · exact ⟨n / 1000, n / 1000, .thousandths hn, by positivity, hbound,
      names_ofThousandths hne hmany, .inl rfl⟩
  · obtain ⟨y, hy, hnear⟩ := near_ofThousandths hne
    exact ⟨n / 1000, y, .thousandths hn, by positivity, hbound, hy,
      .inr ⟨n, hn, not_lt.mp hmany, hnear⟩⟩

/-- What is told of a literal is meaningful, unless it is too great for a double. -/
theorem meaningful_trim_iff {d : Decimal} (h : Plain q (.finite d))
    (hpositive : Decimal.underflow < d.value) :
    Meaningful q (Text.trim q) ↔ d.value < Decimal.overflow := by
  constructor
  · rintro ⟨x, -, hx, -, hlt, -⟩
    rwa [← hx.unique (.whole h)]
  · exact fun hlt => ⟨d.value, d.value, .whole h, Decimal.underflow_pos.trans hpositive, hlt,
      ⟨d, h.literal, rfl⟩, .inl rfl⟩

/-- What is told is meaningful, unless what was asked for is senseless. -/
theorem meaningful_iff (h : processors? q = some v) : Meaningful q v ↔ ¬ Senseless q := by
  rcases processors?_eq_some_iff.mp h with ⟨n, hn, rfl⟩ | ⟨l, hplain, hpositive, rfl⟩
  · by_cases hzero : n = 0
    · subst hzero
      refine iff_of_false ?_ (not_not_intro (.inl hn))
      rintro ⟨x, -, hx, hpos, -⟩
      rw [hx.unique (.thousandths hn), Nat.cast_zero, zero_div] at hpos
      exact hpos.false
    · refine iff_of_true (meaningful_ofThousandths hn hzero) ?_
      rintro (hnone | hinfinite | ⟨d, hfinite, -⟩)
      · exact hzero (hn.unique hnone)
      · exact hinfinite.not_thousandths hn
      · exact hfinite.not_thousandths hn
  · rcases Literal.positive_iff.mp hpositive with rfl | ⟨d, rfl, hlt⟩
    · refine iff_of_false ?_ (not_not_intro (.inr (.inl hplain)))
      rintro ⟨x, -, hn | hfinite, -⟩
      · exact hplain.not_thousandths hn
      · cases hplain.unique hfinite
    · rw [meaningful_trim_iff hplain hlt, ← not_le]
      refine not_congr ⟨fun hle => .inr (.inr ⟨d, hplain, hle⟩), ?_⟩
      rintro (hnone | hinfinite | ⟨d', hfinite, hle⟩)
      · exact absurd hnone hplain.not_thousandths
      · cases hplain.unique hinfinite
      · cases hplain.unique hfinite
        exact hle

/-- Something is told of thousandths, of boundlessly many, and of whatever is not too small for a
double. -/
theorem processors?_isSome_iff : (processors? q).isSome ↔
    (∃ n, Thousandths q n) ∨ Plain q (.infinite false) ∨
      ∃ d, Plain q (.finite d) ∧ Decimal.underflow < d.value := by
  rw [Option.isSome_iff_exists]
  constructor
  · rintro ⟨v, hv⟩
    rcases processors?_eq_some_iff.mp hv with ⟨n, hn, -⟩ | ⟨l, hplain, hpositive, -⟩
    · exact .inl ⟨n, hn⟩
    · rcases Literal.positive_iff.mp hpositive with rfl | ⟨d, rfl, hlt⟩
      · exact .inr (.inl hplain)
      · exact .inr (.inr ⟨d, hplain, hlt⟩)
  · rintro (⟨n, hn⟩ | hinfinite | ⟨d, hfinite, hlt⟩)
    · exact ⟨_, processors?_eq_some_iff.mpr (.inl ⟨n, hn, rfl⟩)⟩
    · exact ⟨_, processors?_eq_some_iff.mpr (.inr ⟨_, hinfinite, rfl, rfl⟩)⟩
    · exact ⟨_, processors?_eq_some_iff.mpr
        (.inr ⟨_, hfinite, Literal.positive_iff.mpr (.inr ⟨d, rfl, hlt⟩), rfl⟩)⟩

/-- **The host is told of limits that mean something**, unless a limit on processors is senseless.
What it is told of processors and of memory are two options apart. Thousandths below `10 ^ 15` are
told exactly. Of a literal it is told as it stands, if it is not too small for a double, and of
nothing else. An amount of memory is told with its unit's letter. -/
theorem limits_meaningful_iff (resources : Resources) (q v : String) (n : Nat) :
    Podman.resourceArguments resources =
      (resources.limits.cpu.bind processors?).elim [] (fun told => ["--cpus", told]) ++
        (resources.limits.memory.bind memory?).elim [] (fun told => ["--memory", told]) ∧
    (processors? q = some v → (Meaningful q v ↔ ¬ Senseless q)) ∧
    ((processors? q).isSome ↔ (∃ m, Thousandths q m) ∨ Plain q (.infinite false) ∨
      ∃ d, Plain q (.finite d) ∧ Decimal.underflow < d.value) ∧
    (Thousandths q n → n ≠ 0 → n < 10 ^ 15 →
      ∃ told, processors? q = some told ∧ Names told (n / 1000)) ∧
    (memory? q = some v ↔ ∃ amount letter, Amount q amount letter ∧
      letter ∈ ["b", "k", "m", "g"] ∧ v = toString amount ++ letter) := by
  refine ⟨?_, meaningful_iff, processors?_isSome_iff, fun hn hne hlt => ?_, ?_⟩
  · unfold Podman.resourceArguments
    cases resources.limits.cpu.bind processors? <;>
      cases resources.limits.memory.bind memory? <;> rfl
  · exact ⟨_, processors?_eq_some_iff.mpr (.inl ⟨n, hn, rfl⟩), names_ofThousandths hne hlt⟩
  · rw [memory?_eq_some_iff]
    constructor
    · rintro ⟨n, letter, hamount, rfl⟩
      obtain ⟨_, _, _, _, hunit⟩ := hamount.text
      exact ⟨n, letter, hamount, (memoryUnit?_spec hunit).2, rfl⟩
    · rintro ⟨n, letter, hamount, -, rfl⟩
      exact ⟨n, letter, hamount, rfl⟩

theorem limits_meaningful_1500m : processors? "1500m" = some "1.5" ∧ Meaningful "1500m" "1.5" := by
  have htold : processors? "1500m" = some "1.5" := by decide +kernel
  have hasked : Thousandths "1500m" 1500 := ⟨"1500", by decide +kernel, by decide +kernel⟩
  obtain ⟨-, hmeaningful, -⟩ := limits_meaningful_iff {} "1500m" "1.5" 1500
  refine ⟨htold, (hmeaningful htold).mpr ?_⟩
  rintro (hnone | hinfinite | ⟨d, hfinite, -⟩)
  · cases hasked.unique hnone
  · exact hinfinite.not_thousandths hasked
  · exact hfinite.not_thousandths hasked

/-- Where no thousandths are asked for, the host is told of no processors, not of no limit. -/
theorem not_limits_meaningful : ¬ ∀ q v,
    Podman.resourceArguments { limits := { cpu := some q } } = ["--cpus", v] →
      ∃ x, Asks q x ∧ 0 < x ∧ Names v x := by
  intro hall
  obtain ⟨x, hx, hpos, -⟩ := hall "0m" "0" (by decide +kernel)
  have hasked : Thousandths "0m" 0 := ⟨"0", by decide +kernel, by decide +kernel⟩
  rw [hx.unique (.thousandths hasked), Nat.cast_zero, zero_div] at hpos
  exact hpos.false

end JobOperator.Quantity
