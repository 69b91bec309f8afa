/-!
# Doubles in exact arithmetic

Positive numbers of double precision, as a mantissa of 53 bits and a power of two,
and their shortest decimal texts. Everything is computed on natural numbers.

* `Double.ofRatio`: the double nearest to a quotient; a tie goes to the even
  mantissa.
* `Double.shortest`: the fewest digits that read back as the double, and of those
  the nearest to it; of two equally near decimals the greater.
* `Double.render`: those digits in positional notation, without an exponent.
-/

namespace JobOperator

/-- The number `mantissa * 2 ^ exponent`. -/
structure Double where
  /-- zero, or at least `2 ^ 52` and below twice as much -/
  mantissa : Nat
  exponent : Int
  deriving DecidableEq, Repr

namespace Double

/-- The least mantissa of a positive double: `2 ^ 52`. -/
def leastMantissa : Nat := 4503599627370496

/-- A quotient, divided by a power of two. -/
def shift (num den : Nat) (e : Int) : Nat × Nat :=
  if 0 ≤ e then (num, den * Nat.pow 2 e.toNat) else (num * Nat.pow 2 (-e).toNat, den)

/-- A quotient rounded to the nearest integer; a half goes to the even one. -/
def roundHalfEven (num den : Nat) : Nat :=
  let q := num / den
  let r := num % den
  if 2 * r < den then q
  else if 2 * r > den then q + 1
  else if q % 2 = 0 then q else q + 1

/-- The double nearest to `num / den`, in an unbounded range of exponents. -/
def ofRatio (num den : Nat) : Double :=
  if num = 0 then ⟨0, 0⟩
  else
    let guess : Int := (num.log2 : Int) - den.log2 - 52
    let (n, d) := shift num den guess
    let e := if n / d < leastMantissa then guess - 1 else guess
    let (n, d) := shift num den e
    let q := roundHalfEven n d
    if q = 2 * leastMantissa then ⟨leastMantissa, e + 1⟩ else ⟨q, e⟩

/-- The double as a quotient. -/
def ratio (d : Double) : Nat × Nat :=
  if 0 ≤ d.exponent then (d.mantissa * Nat.pow 2 d.exponent.toNat, 1)
  else (d.mantissa, Nat.pow 2 (-d.exponent).toNat)

/-- A double divided by a number, rounded to a double. -/
def divide (d : Double) (by_ : Nat) : Double :=
  let (num, den) := d.ratio
  ofRatio num (den * by_)

/-- The least power of ten that a positive quotient stays below. -/
def magnitude (num den : Nat) : Int :=
  if den ≤ num then (Nat.toDigits 10 (num / den)).length
  else
    let count := (Nat.toDigits 10 (den / num)).length
    if num * Nat.pow 10 (count - 1) = den then 2 - (count : Int) else 1 - (count : Int)

/-- A quotient, divided by a power of ten. -/
def shift10 (num den : Nat) (k : Int) : Nat × Nat :=
  if 0 ≤ k then (num, den * Nat.pow 10 k.toNat) else (num * Nat.pow 10 (-k).toNat, den)

/-- The decimal `digits * 10 ^ k` lies among the numbers that round to the double.
The ends of that interval belong to it if the mantissa is even; below a power of
two the lower end is closer. -/
def reads (d : Double) (digits : Nat) (k : Int) : Bool :=
  let lower := 4 * d.mantissa - (if d.mantissa = leastMantissa then 1 else 2)
  let upper := 4 * d.mantissa + 2
  let (unit, den) := ratio ⟨1, d.exponent - 2⟩
  let (num, den') := shift10 digits 1 (-k)
  let left := num * den
  if d.mantissa % 2 = 0 then
    decide (lower * unit * den' ≤ left) && decide (left ≤ upper * unit * den')
  else decide (lower * unit * den' < left) && decide (left < upper * unit * den')

/-- The best decimal with `count` digits that reads back as the double, if there is
one. -/
def withDigits? (d : Double) (count : Nat) : Option (Nat × Int) :=
  let (num, den) := d.ratio
  let k := magnitude num den - count
  let (n, m) := shift10 num den k
  let below := n / m
  match d.reads below k, d.reads (below + 1) k with
  | true, true => if 2 * (n % m) < m then some (below, k) else some (below + 1, k)
  | true, false => some (below, k)
  | false, true => some (below + 1, k)
  | false, false => none

/-- The fewest digits that read back as a positive double, with their power of
ten. Seventeen are always enough. -/
def shortest (d : Double) : Nat × Int :=
  ((List.range 17).findSome? fun n => d.withDigits? (n + 1)).getD (0, 0)

/-- A decimal in positional notation. -/
def positional (digits : Nat) (k : Int) : String :=
  let text := (toString digits).toList
  if 0 ≤ k then String.ofList (text ++ List.replicate k.toNat '0')
  else
    let places := (-k).toNat
    let padded := List.replicate (places + 1 - text.length) '0' ++ text
    let whole := padded.take (padded.length - places)
    let fraction := (padded.drop (padded.length - places)).reverse.dropWhile (· = '0')
    String.ofList (if fraction.isEmpty then whole else whole ++ '.' :: fraction.reverse)

/-- The text of a double. -/
def render (d : Double) : String :=
  if d.mantissa = 0 then "0"
  else
    let (digits, k) := d.shortest
    positional digits k

example : (ofRatio 1 10).render = "0.1" ∧ (ofRatio 5 2).render = "2.5" := by decide +kernel

end Double

end JobOperator
