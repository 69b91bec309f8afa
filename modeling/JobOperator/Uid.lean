import JobOperator.Text.Digits

/-!
# Unique identifiers

A uid tells one incarnation of a job from every other, also from one that had the
same name. It is 128 bits, kept as the thirty-two hexadecimal digits that it is
read and written by.

* `Uid.render`: five groups of lower-case digits joined by hyphens.
* `Uid.parse?`: such groups in either case, bare, in braces or behind `urn:uuid:`;
  or the digits alone.
-/

namespace JobOperator

/-- A 128-bit identifier. -/
structure Uid where
  /-- the hexadecimal digits, most significant first -/
  digits : Vector (Fin 16) 32
  deriving DecidableEq, Repr

namespace Uid

open Digits (hexDigit? hexDigit)

/-- The identifier whose bits spell a number; higher bits are dropped. -/
def ofNat (n : Nat) : Uid :=
  ⟨Vector.ofFn fun i => ⟨n / Nat.pow 16 (31 - i.val) % 16, Nat.mod_lt _ (by decide)⟩⟩

instance : Inhabited Uid := ⟨ofNat 0⟩

/-- The identifier of thirty-two digits. -/
def ofDigits? (ds : List (Fin 16)) : Option Uid :=
  if h : ds.length = 32 then some ⟨⟨ds.toArray, by simpa using h⟩⟩ else none

/-- The identifier that thirty-two hexadecimal characters spell. -/
def ofHex? (cs : List Char) : Option Uid := do ofDigits? (← cs.mapM hexDigit?)

/-- The identifier of five groups joined by hyphens. -/
def ofGroups? (cs : List Char) : Option Uid :=
  match cs.take 8, cs.drop 8 with
  | a, '-' :: cs => match cs.take 4, cs.drop 4 with
    | b, '-' :: cs => match cs.take 4, cs.drop 4 with
      | c, '-' :: cs => match cs.take 4, cs.drop 4 with
        | d, '-' :: e => ofHex? (a ++ b ++ c ++ d ++ e)
        | _, _ => none
      | _, _ => none
    | _, _ => none
  | _, _ => none

/-- What stands between braces. -/
def unbraced? : List Char → Option (List Char)
  | '\x7b' :: cs => match cs.getLast? with
    | some '\x7d' => some cs.dropLast
    | _ => none
  | _ => none

/-- The identifier that a text spells. -/
def parse? (s : String) : Option Uid :=
  let cs := s.toList
  if cs.length = 32 then ofHex? cs
  else if cs.length = 36 then ofGroups? cs
  else if cs.length = 38 then unbraced? cs >>= ofGroups?
  else if cs.length = 45 ∧ cs.take 9 = "urn:uuid:".toList then ofGroups? (cs.drop 9)
  else none

/-- The text of an identifier. -/
def render (u : Uid) : String :=
  let cs := u.digits.toList.map hexDigit
  String.ofList (cs.take 8 ++ '-' :: (cs.drop 8).take 4 ++ '-' :: (cs.drop 12).take 4
    ++ '-' :: (cs.drop 16).take 4 ++ '-' :: cs.drop 20)

end Uid

end JobOperator
