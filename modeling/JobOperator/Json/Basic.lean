/-!
# JSON texts as trees

A tree says what a JSON text says, before anyone asks whether it is the record
they wanted: members keep their order and may repeat, a number keeps its written
form, and a text that stops being JSON still yields the tree of what came before.

* `Json`: the trees. `broken` is a leaf that stands where the text stops
  following the grammar; it is the last thing in its tree, so whoever walks a
  tree in document order meets the faults of a text in the order of the text.
* `Json.Fault`: the two ways in which a text fails to be a wanted value.
* `Json.mismatch`: which of the two a value is that has the wrong kind.
-/

namespace JobOperator

/-- A number as it is written. -/
structure Numeral where
  /-- a minus sign stands in front -/
  negative : Bool
  /-- the digits before the point -/
  whole : Nat
  /-- the digits after the point; empty when there is no point -/
  fraction : List Nat
  /-- the power of ten after an `e` -/
  exponent : Option Int
  deriving DecidableEq, Repr

namespace Numeral

/-- The numeral of an integer. -/
def ofInt (n : Int) : Numeral := ⟨n < 0, n.natAbs, [], none⟩

/-- The integer that a numeral spells, if it has neither point nor exponent. The
numeral `-0` spells none: it denotes a floating-point zero. -/
def toInt? (n : Numeral) : Option Int :=
  if n.fraction = [] ∧ n.exponent = none then
    if n.negative then (if n.whole = 0 then none else some (-(n.whole : Int)))
    else some n.whole
  else none

/-- All digits of a numeral as one number; its value is this times ten to the
power `scale`. -/
def digits (n : Numeral) : Nat := n.fraction.foldl (fun a d => 10 * a + d) n.whole

/-- The power of ten that goes with `digits`. -/
def scale (n : Numeral) : Int := n.exponent.getD 0 - n.fraction.length

/-- The numeral lies beyond the range of double precision: it rounds to infinity.
The bound is the midpoint between the greatest double and the next power of two;
numerals far from it are told by their count of digits alone. -/
def overflows (n : Numeral) : Bool :=
  let d := n.digits
  let count : Int := (Nat.toDigits 10 d).length
  if d = 0 then false
  else if count + n.scale > 400 then true
  else if count + n.scale < 300 then false
  else
    let bound := Nat.pow 2 1024 - Nat.pow 2 970
    if 0 ≤ n.scale then decide (bound ≤ d * Nat.pow 10 n.scale.toNat)
    else decide (bound * Nat.pow 10 (-n.scale).toNat ≤ d)

@[simp] theorem toInt?_ofInt (n : Int) : (ofInt n).toInt? = some n := by
  unfold ofInt toInt?
  by_cases h : n < 0
  · have : n.natAbs ≠ 0 := by omega
    simp only [h, decide_true, if_true, this, if_false, and_self]
    congr 1; omega
  · simp only [h, decide_false, and_self, if_true, Bool.false_eq_true, if_false]
    congr 1; omega

end Numeral

/-- A JSON text as a tree. A quoted text is `none` when its bytes are no UTF-8, or its
escapes name half of a surrogate pair: such a text can be skipped, but no string spells
it. -/
inductive Json where
  | null
  | bool (value : Bool)
  | number (value : Numeral)
  | string (text : Option String)
  | array (items : List Json)
  | object (members : List (Option String × Json))
  /-- here the text stops being JSON -/
  | broken
  deriving Repr, Inhabited

namespace Json

/-- A string value. -/
abbrev str (s : String) : Json := .string (some s)

/-- An integer value. -/
abbrev int (n : Int) : Json := .number (.ofInt n)

/-- An unsigned value. -/
abbrev nat (n : Nat) : Json := .int n

/-- An object with the given members, in this order. -/
abbrev record (members : List (String × Json)) : Json :=
  .object (members.map fun (key, value) => (some key, value))

/-- Why a text is not the value that is wanted. -/
inductive Fault where
  /-- the text is not JSON -/
  | malformed
  /-- the text is JSON, but not of such a value -/
  | unfit
  deriving DecidableEq, Repr

/-- What reading a tree as a value gives. -/
abbrev Reading := Except Fault

/-- The fault of a value of the wrong kind. A number is looked at before it is
found to be of the wrong kind, so one that no double holds is no JSON at all. -/
def mismatch : Json → Fault
  | .broken => .malformed
  | .string none => .malformed
  | .number n => if n.overflows then .malformed else .unfit
  | _ => .unfit

mutual
/-- The tree holds no `broken` leaf, so its text is JSON and can be skipped. -/
def wellFormed : Json → Bool
  | .broken => false
  | .array items => allWellFormed items
  | .object members => membersWellFormed members
  | _ => true
/-- Every item is well formed. -/
def allWellFormed : List Json → Bool
  | [] => true
  | item :: items => wellFormed item && allWellFormed items
/-- Every member's value is well formed. -/
def membersWellFormed : List (Option String × Json) → Bool
  | [] => true
  | (_, value) :: members => wellFormed value && membersWellFormed members
end

end Json

end JobOperator
