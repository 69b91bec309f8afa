import JobOperator.Text.Digits
import JobOperator.Text.Utf8

/-!
# Percent encoding

A path segment may spell any byte as a percent sign and two hexadecimal digits.
A percent sign that is not followed by two such digits stands for itself.
-/

namespace JobOperator.Percent

open Digits (hexDigit?)

/-- The bytes that a percent-encoded text stands for. -/
def bytes : List UInt8 → List UInt8
  | p :: a :: b :: rest =>
    match hexDigit? (Char.ofNat a.toNat), hexDigit? (Char.ofNat b.toNat) with
    | some high, some low =>
      if p = 0x25 then UInt8.ofNat (16 * high.val + low.val) :: bytes rest
      else p :: bytes (a :: b :: rest)
    | _, _ => p :: bytes (a :: b :: rest)
  | short => short

/-- The text that a percent-encoded text stands for, unless its bytes are not
UTF-8. -/
def decode? (s : String) : Option String := Utf8.decode? (bytes (Utf8.encode s))

example : decode? "%62ell" = some "bell" ∧ decode? "100%" = some "100%" ∧ decode? "%FF" = none := by
  decide +kernel

end JobOperator.Percent
