import JobOperator.Text.Digits

/-!
# Decimal literals

The texts that name a floating-point number: a sign or none, digits with a point
anywhere among them or none, and an exponent or none; or one of the words `inf`,
`infinity` and `nan` in any case. At least one digit has to be there.

* `Decimal`: what a literal says, exactly: a sign, digits and a power of ten.
* `Literal.parse?`: the literal of a text.
* `Literal.positive`: the double that a literal names is greater than zero.
-/

namespace JobOperator

/-- A decimal number: `digits * 10 ^ scale`, negated or not. -/
structure Decimal where
  negative : Bool
  digits : Nat
  scale : Int
  deriving DecidableEq, Repr

/-- A number as a text names it. -/
inductive Literal where
  | finite (value : Decimal)
  | infinite (negative : Bool)
  | notANumber
  deriving DecidableEq, Repr

namespace Decimal

/-- The number is so small that the nearest double is zero: it lies at most half
way between zero and the least positive double. Numbers far from that bound are
told by their count of digits alone. -/
def vanishes (d : Decimal) : Bool :=
  let count : Int := (Nat.toDigits 10 d.digits).length
  if d.digits = 0 then true
  else if count + d.scale > 0 then false
  else if count + d.scale < -400 then true
  else decide (d.digits * Nat.pow 2 1075 ≤ Nat.pow 10 (-d.scale).toNat)

end Decimal

namespace Literal

open Digits (isDigit value)

/-- The exponent behind the digits of a literal, which ends it. -/
def exponent? : List Char → Option Int
  | [] => some 0
  | e :: cs =>
    if e = 'e' || e = 'E' then
      match cs with
      | '-' :: ds => (Digits.natural? ds).map fun n => -(n : Int)
      | '+' :: ds => (Digits.natural? ds).map Int.ofNat
      | ds => (Digits.natural? ds).map Int.ofNat
    else none

/-- The digits and the exponent of a literal. -/
def number? (negative : Bool) (cs : List Char) : Option Decimal :=
  let whole := cs.takeWhile isDigit
  let (fraction, rest) := match cs.dropWhile isDigit with
    | '.' :: rest => (rest.takeWhile isDigit, rest.dropWhile isDigit)
    | rest => ([], rest)
  if whole.isEmpty && fraction.isEmpty then none
  else (exponent? rest).map fun e => ⟨negative, value (whole ++ fraction), e - fraction.length⟩

/-- A literal behind its sign. -/
def unsigned? (negative : Bool) (cs : List Char) : Option Literal :=
  let word := String.ofList (cs.map Char.toLower)
  if word = "inf" || word = "infinity" then some (.infinite negative)
  else if word = "nan" then some .notANumber
  else (number? negative cs).map .finite

/-- The literal of a text. -/
def parse? (s : String) : Option Literal :=
  match s.toList with
  | '-' :: cs => unsigned? true cs
  | '+' :: cs => unsigned? false cs
  | cs => unsigned? false cs

/-- The double that the literal names is greater than zero. -/
def positive : Literal → Bool
  | .finite d => !d.negative && !d.vanishes
  | .infinite negative => !negative
  | .notANumber => false

end Literal

end JobOperator
