/-!
# Decimal digits

Reading and writing natural numbers in decimal, as the parts that timestamps,
quantities, names and records share.

* `Digits.value`: the number that a run of digits spells.
* `Digits.natural?`: a text that is one run of digits and nothing else.
* `Digits.unsigned?`: a number below a bound, with an optional plus sign; this
  is how an attempt number and a setting are read.
* `Digits.padded`: a number written with a least number of digits.
-/

namespace JobOperator.Digits

/-- The value of an ASCII digit. -/
def digit? (c : Char) : Option Nat :=
  if '0' ≤ c ∧ c ≤ '9' then some (c.toNat - 48) else none

/-- An ASCII digit. -/
def isDigit (c : Char) : Bool := (digit? c).isSome

/-- The number that digits spell, most significant first; a character that is
no digit counts as zero. -/
def value (cs : List Char) : Nat :=
  cs.foldl (fun n c => 10 * n + (digit? c).getD 0) 0

/-- The number that a text spells if it is a non-empty run of digits. -/
def natural? (cs : List Char) : Option Nat :=
  if !cs.isEmpty && cs.all isDigit then some (value cs) else none

/-- A number below `bound`: digits, after a plus sign or none. -/
def unsigned? (bound : Nat) (s : String) : Option Nat :=
  let digits := match s.toList with
    | '+' :: cs => cs
    | cs => cs
  (natural? digits).filter (· < bound)

/-- A number with zeros in front of it up to `width` digits. -/
def padded (width n : Nat) : String :=
  let digits := Nat.toDigits 10 n
  String.ofList (List.replicate (width - digits.length) '0' ++ digits)

/-- The value of a hexadecimal digit of either case. -/
def hexDigit? (c : Char) : Option (Fin 16) :=
  if '0' ≤ c ∧ c ≤ '9' then some (Fin.ofNat 16 (c.toNat - 48))
  else if 'a' ≤ c ∧ c ≤ 'f' then some (Fin.ofNat 16 (c.toNat - 87))
  else if 'A' ≤ c ∧ c ≤ 'F' then some (Fin.ofNat 16 (c.toNat - 55))
  else none

/-- The lower-case hexadecimal digit of a value. -/
def hexDigit (n : Fin 16) : Char := Nat.digitChar n.val

theorem hexDigit?_hexDigit : ∀ n : Fin 16, hexDigit? (hexDigit n) = some n := by decide

end JobOperator.Digits
