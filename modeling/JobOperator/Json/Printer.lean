import JobOperator.Json.Lexer

/-!
# From trees to texts

The compact form: no space between tokens, an escape only where one is needed,
and the short escape where there is one. A text that no string spells, and a
`broken` leaf, have no written form; they are written as `null`.

* `Json.Token.render`: the text of a token.
* `Json.tokens`: the tokens of a tree.
* `Json.render`: the text of a tree.
-/

namespace JobOperator.Json

namespace Token

/-- A character inside a quoted text. -/
def escape (c : Char) : List Char :=
  if c = '"' then ['\\', '"']
  else if c = '\\' then ['\\', '\\']
  else if c = '\x08' then ['\\', 'b']
  else if c = '\x0c' then ['\\', 'f']
  else if c = '\n' then ['\\', 'n']
  else if c = '\r' then ['\\', 'r']
  else if c = '\t' then ['\\', 't']
  else if c.toNat < 0x20 then
    ['\\', 'u', '0', '0', Nat.digitChar (c.toNat / 16), Nat.digitChar (c.toNat % 16)]
  else [c]

/-- The text of a numeral. -/
def renderNumeral (n : Numeral) : List Char :=
  (if n.negative then ['-'] else []) ++ Nat.toDigits 10 n.whole
    ++ (if n.fraction.isEmpty then [] else '.' :: n.fraction.map Nat.digitChar)
    ++ match n.exponent with
      | none => []
      | some e => 'e' :: (if e < 0 then ['-'] else []) ++ Nat.toDigits 10 e.natAbs

/-- The text of a token. -/
def render : Token → List Char
  | .null | .broken | .string none => "null".toList
  | .bool true => "true".toList
  | .bool false => "false".toList
  | .number n => renderNumeral n
  | .string (some s) => '"' :: s.toList.flatMap escape ++ ['"']
  | .comma => [',']
  | .colon => [':']
  | .openArray => ['[']
  | .closeArray => [']']
  | .openObject => ['\x7b']
  | .closeObject => ['\x7d']

end Token

mutual
/-- The tokens of a tree. -/
def tokens : Json → List Token
  | .null => [.null]
  | .bool b => [.bool b]
  | .number n => [.number n]
  | .string s => [.string s]
  | .array items => .openArray :: itemTokens items ++ [.closeArray]
  | .object members => .openObject :: memberTokens members ++ [.closeObject]
  | .broken => [.broken]
/-- The tokens of the items of an array. -/
def itemTokens : List Json → List Token
  | [] => []
  | [item] => tokens item
  | item :: items => tokens item ++ .comma :: itemTokens items
/-- The tokens of the members of an object. -/
def memberTokens : List (Option String × Json) → List Token
  | [] => []
  | [(key, value)] => .string key :: .colon :: tokens value
  | (key, value) :: members =>
    .string key :: .colon :: tokens value ++ .comma :: memberTokens members
end

/-- The compact text of a tree. -/
def render (value : Json) : String :=
  String.ofList (value.tokens.flatMap Token.render)

end JobOperator.Json
