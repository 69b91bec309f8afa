import JobOperator.Json.Lexer
import JobOperator.Text.Utf8

/-!
# From tokens to trees

* `Json.Document`: a text read as far as it goes: its tree, and whether anything
  stands behind it.
* `Json.ofBytes`: the document that some bytes spell. It never fails; where they are
  not JSON, the tree has a `broken` leaf.
* `Json.decode`: bytes read as a value. Faults count in document order: the
  tree is read as a value first, and only then must nothing stand behind it.
-/

namespace JobOperator.Json

/-! ## Descent over the tokens

Each call spends one unit of fuel, and between two tokens there are at most two
calls, so twice the number of tokens is always enough. -/

mutual
/-- One value, and the tokens behind it. -/
def readValue : Nat → List Token → Json × List Token
  | 0, _ => (.broken, [])
  | _ + 1, [] => (.broken, [])
  | fuel + 1, token :: rest =>
    match token with
    | .null => (.null, rest)
    | .bool b => (.bool b, rest)
    | .number n => (.number n, rest)
    | .string s => (.string s, rest)
    | .openArray =>
      match rest with
      | .closeArray :: rest => (.array [], rest)
      | rest => let (items, rest) := readItems fuel rest; (.array items, rest)
    | .openObject =>
      match rest with
      | .closeObject :: rest => (.object [], rest)
      | rest => let (members, rest) := readMembers fuel rest; (.object members, rest)
    | _ => (.broken, [])
/-- The items of an array that is not empty, and the tokens behind it. -/
def readItems : Nat → List Token → List Json × List Token
  | 0, _ => ([.broken], [])
  | fuel + 1, tokens =>
    let (item, rest) := readValue fuel tokens
    match rest with
    | .comma :: rest => let (items, rest) := readItems fuel rest; (item :: items, rest)
    | .closeArray :: rest => ([item], rest)
    | _ => ([item, .broken], [])
/-- The members of an object that is not empty, and the tokens behind it. -/
def readMembers : Nat → List Token → List (Option String × Json) × List Token
  | 0, _ => ([(none, .broken)], [])
  | fuel + 1, tokens =>
    match tokens with
    | .string key :: .colon :: rest =>
      let (value, rest) := readValue fuel rest
      match rest with
      | .comma :: rest =>
        let (members, rest) := readMembers fuel rest
        ((key, value) :: members, rest)
      | .closeObject :: rest => ([(key, value)], rest)
      | _ => ([(key, value), (none, .broken)], [])
    | .string key :: _ => ([(key, .broken)], [])
    | _ => ([(none, .broken)], [])
end

/-- A text, read as far as it is JSON. -/
structure Document where
  /-- the tree of the text -/
  root : Json
  /-- something stands behind the value -/
  trailing : Bool

/-- The document of a list of tokens. -/
def ofTokens (tokens : List Token) : Document :=
  let (root, rest) := readValue (2 * tokens.length + 1) tokens
  ⟨root, !rest.isEmpty⟩

/-- The document that some bytes spell. -/
def ofBytes (bytes : List UInt8) : Document :=
  ofTokens (Token.scan (bytes.map fun b => Char.ofNat b.toNat))

/-- The document of a text. -/
def ofText (s : String) : Document := ofBytes (Utf8.encode s)

/-- Bytes read as a value. -/
def decode {α : Type} (read : Json → Reading α) (bytes : List UInt8) : Reading α :=
  let document := ofBytes bytes
  match read document.root with
  | .ok a => if document.trailing then .error .malformed else .ok a
  | .error fault => .error fault

end JobOperator.Json
