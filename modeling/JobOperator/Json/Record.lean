import JobOperator.Json.Basic

/-!
# Records as JSON

A record is read and written by one description of its fields, so that what is
written is what is read.

* `Json.Field`: a member of a record: its key, how its value is written and read,
  and the value that stands in for a member that is left out.
* `Json.Schema`: the fields of a record in their order, indexed by the types of
  their values; `Json.Values` is a value for each of them.
* `Json.Schema.read`: an object with the fields as members in any order, or an
  array of the fields' values in their order, read as values for all fields.
* `Json.Schema.write`: the object of values for all fields.

Reading follows the document: a member is refused where it stands, and a field
that is missing only where the record ends. A key that no field has is skipped,
but its value has to be JSON. A field must not come twice.
-/

namespace JobOperator.Json

/-! ## Plain values -/

/-- A string. -/
def readString : Json → Reading String
  | .string (some s) => .ok s
  | value => .error (mismatch value)

/-- An unsigned integer below `bound`. -/
def readBelow (bound : Nat) : Json → Reading Nat
  | .number n =>
    match n.toInt? with
    | some (.ofNat k) => if k < bound then .ok k else .error (mismatch (.number n))
    | _ => .error (mismatch (.number n))
  | value => .error (mismatch value)

/-- An unsigned integer of 32 bits. -/
def readUInt32 (value : Json) : Reading UInt32 :=
  (readBelow UInt32.size value).map UInt32.ofNat

/-- An unsigned integer of 64 bits. -/
def readUInt64 (value : Json) : Reading UInt64 :=
  (readBelow UInt64.size value).map UInt64.ofNat

/-- A signed integer of 32 bits. -/
def readInt32 : Json → Reading Int
  | .number n =>
    match n.toInt? with
    | some k => if Int32.minValue.toInt ≤ k ∧ k ≤ Int32.maxValue.toInt then .ok k
      else .error (mismatch (.number n))
    | none => .error (mismatch (.number n))
  | value => .error (mismatch value)

/-- `null`, or a value. -/
def readOption {α : Type} (read : Json → Reading α) : Json → Reading (Option α)
  | .null => .ok none
  | value => (read value).map some

/-- `null` for nothing. -/
def writeOption {α : Type} (write : α → Json) : Option α → Json
  | none => .null
  | some a => write a

/-- One of several words, as a string or as an object whose only member has the
word as its key and `null` as its value. -/
def readWord {α : Type} (word? : String → Option α) : Json → Reading α
  | .string (some s) => match word? s with
    | some a => .ok a
    | none => .error .unfit
  | .object ((some s, value) :: rest) => match word? s with
    | none => .error .unfit
    | some a => match value with
      | .null => if rest.isEmpty then .ok a else .error .malformed
      | value => .error (mismatch value)
  | _ => .error .malformed

/-- A string that a reader understands. -/
def readParsed {α : Type} (parse? : String → Option α) (value : Json) : Reading α := do
  match parse? (← readString value) with
  | some a => return a
  | none => throw .unfit

/-- The items of an array, each read the same way. -/
def readArray {α : Type} (read : Json → Reading α) : Json → Reading (List α)
  | .array items => items.mapM read
  | value => .error (mismatch value)

/-! ## Fields and schemas -/

/-- A member of a record. -/
structure Field (α : Type) where
  /-- the key of the member -/
  key : String
  /-- a value as it is read -/
  read : Json → Reading α
  /-- a value as it is written; `none` leaves the member out -/
  write : α → Option Json
  /-- the value that a missing member has; `none` if it must not be missing -/
  absent : Option α

namespace Field

/-- A member that must be present. -/
def required {α : Type} (key : String) (read : Json → Reading α) (write : α → Json) : Field α :=
  ⟨key, read, fun a => some (write a), none⟩

/-- A member that has a default, and is always written. -/
def defaulted {α : Type} (key : String) (read : Json → Reading α) (write : α → Json)
    (default : α) : Field α :=
  ⟨key, read, fun a => some (write a), some default⟩

/-- A member that is written only when there is something to write. -/
def optional {α : Type} (key : String) (read : Json → Reading α) (write : α → Json) :
    Field (Option α) :=
  ⟨key, readOption read, fun a => a.map write, some none⟩

end Field

/-- The fields of a record, in the order of their declaration. -/
inductive Schema : List Type → Type 1 where
  | nil : Schema []
  | cons {α : Type} {αs : List Type} (field : Field α) (rest : Schema αs) : Schema (α :: αs)

/-- A value for each field. -/
def Values : List Type → Type
  | [] => Unit
  | α :: αs => α × Values αs

/-- A value for each field that has been met so far. -/
def Partial : List Type → Type
  | [] => Unit
  | α :: αs => Option α × Partial αs

namespace Schema

/-- No field has been met. -/
def blank : {αs : List Type} → Schema αs → Partial αs
  | _, .nil => ()
  | _, .cons _ rest => (none, rest.blank)

/-- Takes in a member; `none` if no field has its key. -/
def place (key : String) (value : Json) :
    {αs : List Type} → Schema αs → Partial αs → Reading (Option (Partial αs))
  | _, .nil, _ => .ok none
  | _, .cons field rest, (here, there) =>
    if field.key = key then
      match here with
      | some _ => .error .unfit
      | none => (field.read value).map fun a => some (some a, there)
    else (rest.place key value there).map (·.map (here, ·))

/-- Takes in the members of an object, one after another. -/
def placeAll {αs : List Type} (schema : Schema αs) :
    List (Option String × Json) → Partial αs → Reading (Partial αs)
  | [], row => .ok row
  | (none, _) :: _, _ => .error .malformed
  | (some key, value) :: members, row =>
    match schema.place key value row with
    | .error fault => .error fault
    | .ok (some row) => schema.placeAll members row
    | .ok none => if value.wellFormed then schema.placeAll members row else .error .malformed

/-- Fills in the fields that have not been met. -/
def complete : {αs : List Type} → Schema αs → Partial αs → Reading (Values αs)
  | _, .nil, _ => .ok ()
  | _, .cons field rest, (here, there) =>
    match here.or field.absent with
    | some a => (rest.complete there).map (a, ·)
    | none => .error .unfit

/-- Reads an array of values, in the order of the fields. A value more than there
are fields is a fault of the text. -/
def ofItems : {αs : List Type} → Schema αs → List Json → Reading (Values αs)
  | _, .nil, [] => .ok ()
  | _, .nil, _ :: _ => .error .malformed
  | _, .cons field rest, [] =>
    match field.absent with
    | some a => (rest.ofItems []).map (a, ·)
    | none => .error .unfit
  | _, .cons field rest, item :: items =>
    match field.read item with
    | .ok a => (rest.ofItems items).map (a, ·)
    | .error fault => .error fault

/-- Reads a value for each field from an object or an array. -/
def read {αs : List Type} (schema : Schema αs) : Json → Reading (Values αs)
  | .object members => do schema.complete (← schema.placeAll members schema.blank)
  | .array items => schema.ofItems items
  | value => .error (mismatch value)

/-- The members of a record that are written. -/
def members : {αs : List Type} → Schema αs → Values αs → List (String × Json)
  | _, .nil, _ => []
  | _, .cons field rest, (a, as) =>
    match field.write a with
    | some value => (field.key, value) :: rest.members as
    | none => rest.members as

/-- The object of a value for each field. -/
def write {αs : List Type} (schema : Schema αs) (values : Values αs) : Json :=
  .record (schema.members values)

end Schema

end JobOperator.Json
