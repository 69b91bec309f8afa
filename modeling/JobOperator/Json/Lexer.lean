import JobOperator.Json.Basic
import JobOperator.Text.Digits

/-!
# The tokens of a JSON text

A text is read byte by byte, each byte as the character of its number. All that makes up
a token is ASCII, so only what stands in quotes has to be UTF-8, and only when somebody
wants to know what it says.

* `Json.Token`: punctuation, and the leaves of the trees.
* `Json.Token.next`: the token that a character begins, and what follows it.
* `Json.Token.scan`: all tokens of a text. The list ends with `broken` where the
  text cannot be cut into tokens any further.
-/

namespace JobOperator.Json

/-- A token of a JSON text. -/
inductive Token where
  | null
  | bool (value : Bool)
  | number (value : Numeral)
  /-- a quoted text; `none` if its bytes are no UTF-8, or if its escapes leave a surrogate
  without its partner -/
  | string (text : Option String)
  | comma
  | colon
  | openArray
  | closeArray
  | openObject
  | closeObject
  /-- no token begins here -/
  | broken
  deriving DecidableEq, Repr

namespace Token

open Digits

/-- The four characters that may stand between tokens. -/
def isSpace (c : Char) : Bool := c = ' ' || c = '\n' || c = '\t' || c = '\r'

/-- The code unit that four hexadecimal digits spell. -/
def unit? (a b c d : Char) : Option Nat := do
  let a ← hexDigit? a
  let b ← hexDigit? b
  let c ← hexDigit? c
  let d ← hexDigit? d
  return ((a.val * 16 + b.val) * 16 + c.val) * 16 + d.val

/-- The character that a backslash and a letter stand for. -/
def escaped? : Char → Option Char
  | '"' => some '"'
  | '\\' => some '\\'
  | '/' => some '/'
  | 'b' => some '\x08'
  | 'f' => some '\x0c'
  | 'n' => some '\n'
  | 'r' => some '\r'
  | 't' => some '\t'
  | _ => none

/-- A piece of a quoted text: a byte as it stands there, or the code unit that an escape
names. -/
inductive Piece where
  | byte (value : UInt8)
  | unit (value : Nat)

/-- The body of a quoted text, from behind the opening quote: its pieces, latest first
and on top of `pieces`, and what follows the closing quote. -/
def quoted (pieces : List Piece) : List Char → Option (List Piece × List Char)
  | [] => none
  | '"' :: rest => some (pieces, rest)
  | '\\' :: 'u' :: a :: b :: c :: d :: rest =>
    match unit? a b c d with
    | some u => quoted (.unit u :: pieces) rest
    | none => none
  | '\\' :: e :: rest =>
    match escaped? e with
    | some c => quoted (.unit c.toNat :: pieces) rest
    | none => none
  | c :: rest =>
    if c.toNat < 0x20 || c = '\\' then none
    else quoted (.byte (.ofNat c.toNat) :: pieces) rest

/-- The bytes that some pieces spell, behind `bytes`, which come latest first. A leading
surrogate is joined with the trailing one after it; a surrogate that is left alone spells
nothing. -/
def spell (bytes : List UInt8) : List Piece → Option (List UInt8)
  | [] => some bytes.reverse
  | .byte b :: pieces => spell (b :: bytes) pieces
  | .unit u :: pieces =>
    let behind (code : Nat) := (String.utf8EncodeChar (Char.ofNat code)).reverse ++ bytes
    if 0xD800 ≤ u ∧ u ≤ 0xDBFF then
      match pieces with
      | .unit v :: rest =>
        if 0xDC00 ≤ v ∧ v ≤ 0xDFFF then
          spell (behind (0x10000 + (u - 0xD800) * 0x400 + (v - 0xDC00))) rest
        else none
      | _ => none
    else if 0xDC00 ≤ u ∧ u ≤ 0xDFFF then none
    else spell (behind u) pieces

/-- The text that some pieces spell. -/
def text? (pieces : List Piece) : Option String :=
  (spell [] pieces).bind fun bytes => String.fromUTF8? ⟨bytes.toArray⟩

/-- Digits at the start of a text, and what follows them. -/
def digitRun (cs : List Char) : List Char × List Char :=
  (cs.takeWhile isDigit, cs.dropWhile isDigit)

/-- The part of a number behind the point, if there is a point. -/
def fraction? : List Char → Option (List Nat × List Char)
  | '.' :: cs =>
    let (ds, rest) := digitRun cs
    if ds.isEmpty then none else some (ds.map fun c => (digit? c).getD 0, rest)
  | cs => some ([], cs)

/-- An exponent's digits and its sign. -/
def exponentDigits? (negative : Bool) (cs : List Char) : Option (Option Int × List Char) :=
  let (ds, rest) := digitRun cs
  if ds.isEmpty then none
  else
    let n : Int := value ds
    some (some (if negative then -n else n), rest)

/-- The part of a number behind an `e`, if there is one. -/
def exponent? : List Char → Option (Option Int × List Char)
  | e :: cs =>
    if e = 'e' || e = 'E' then
      match cs with
      | '+' :: cs => exponentDigits? false cs
      | '-' :: cs => exponentDigits? true cs
      | cs => exponentDigits? false cs
    else some (none, e :: cs)
  | [] => some (none, [])

/-- The number at the start of a text, its sign apart. Zero is the only number
that begins with the digit zero. -/
def number? (negative : Bool) (cs : List Char) : Option (Numeral × List Char) := do
  let (ds, rest) := digitRun cs
  if ds.isEmpty || (ds.head? = some '0' && ds.length > 1) then none
  else
    let (fraction, rest) ← fraction? rest
    let (exponent, rest) ← exponent? rest
    return (⟨negative, value ds, fraction, exponent⟩, rest)

/-- What follows a word at the start of a text. -/
def word? : List Char → List Char → Option (List Char)
  | [], rest => some rest
  | w :: ws, c :: cs => if w = c then word? ws cs else none
  | _ :: _, [] => none

/-- A token if there is one, and `broken` in front of nothing if not. -/
def orBroken {α : Type} (found : Option (α × List Char)) (token : α → Token) :
    Token × List Char :=
  match found with
  | some (a, rest) => (token a, rest)
  | none => (.broken, [])

/-- The token of a word, if the text begins with the word. -/
def literal (word : List Char) (token : Token) (cs : List Char) : Token × List Char :=
  match word? word cs with
  | some rest => (token, rest)
  | none => (.broken, [])

/-- The token that begins with `c`, and what follows it. -/
def next (c : Char) (cs : List Char) : Token × List Char :=
  match c with
  | ',' => (.comma, cs)
  | ':' => (.colon, cs)
  | '[' => (.openArray, cs)
  | ']' => (.closeArray, cs)
  | '{' => (.openObject, cs)
  | '}' => (.closeObject, cs)
  | '"' => orBroken (quoted [] cs) fun pieces => .string (text? pieces.reverse)
  | 'n' => literal "ull".toList .null cs
  | 't' => literal "rue".toList (.bool true) cs
  | 'f' => literal "alse".toList (.bool false) cs
  | '-' => orBroken (number? true cs) .number
  | c => orBroken (number? false (c :: cs)) .number

/-! ## No token is longer than the text -/

theorem quoted_length {pieces ps : List Piece} {cs rest : List Char}
    (h : quoted pieces cs = some (ps, rest)) : rest.length ≤ cs.length := by
  fun_induction quoted pieces cs with
  | case1 => cases h
  | case2 => simp only [Option.some.injEq, Prod.mk.injEq] at h; simp [← h.2]
  | case3 _ _ _ _ _ _ _ _ ih => have := ih h; simp only [List.length_cons]; omega
  | case4 => cases h
  | case5 _ _ _ _ _ _ ih => have := ih h; simp only [List.length_cons]; omega
  | case6 => cases h
  | case7 => cases h
  | case8 _ _ _ _ _ _ _ ih => have := ih h; simp only [List.length_cons]; omega

theorem digitRun_length (cs : List Char) : (digitRun cs).2.length ≤ cs.length :=
  (List.dropWhile_sublist _).length_le

theorem fraction?_length {cs rest : List Char} {f : List Nat}
    (h : fraction? cs = some (f, rest)) : rest.length ≤ cs.length := by
  unfold fraction? at h
  split at h
  · rename_i cs
    simp only at h
    split at h
    · cases h
    · have := digitRun_length cs
      simp only [Option.some.injEq, Prod.mk.injEq] at h
      simp only [← h.2, List.length_cons]
      omega
  · simp only [Option.some.injEq, Prod.mk.injEq] at h
    simp [← h.2]

theorem exponentDigits?_length {negative : Bool} {cs rest : List Char} {e : Option Int}
    (h : exponentDigits? negative cs = some (e, rest)) : rest.length ≤ cs.length := by
  unfold exponentDigits? at h
  simp only at h
  split at h
  · cases h
  · simp only [Option.some.injEq, Prod.mk.injEq] at h
    simpa [← h.2] using digitRun_length cs

theorem exponent?_length {cs rest : List Char} {e : Option Int}
    (h : exponent? cs = some (e, rest)) : rest.length ≤ cs.length := by
  unfold exponent? at h
  split at h
  · split at h
    · split at h <;>
      · have := exponentDigits?_length h
        simp only [List.length_cons]
        omega
    · simp only [Option.some.injEq, Prod.mk.injEq] at h
      simp [← h.2]
  · simp only [Option.some.injEq, Prod.mk.injEq] at h
    simp [← h.2]

theorem number?_length {negative : Bool} {cs rest : List Char} {n : Numeral}
    (h : number? negative cs = some (n, rest)) :
    rest.length ≤ (digitRun cs).2.length ∧ (digitRun cs).1 ≠ [] := by
  unfold number? at h
  simp only at h
  split at h
  · cases h
  · rename_i hd
    simp only [Bool.or_eq_true, not_or] at hd
    have hne : (digitRun cs).1 ≠ [] := by
      intro he; exact hd.1 (by simp [he])
    cases hf : fraction? (digitRun cs).2 with
    | none => simp [hf] at h
    | some p =>
      cases he : exponent? p.2 with
      | none => simp [hf, he] at h
      | some q =>
        simp only [hf, he, Option.bind_eq_bind, Option.bind_some, Option.pure_def,
          Option.some.injEq, Prod.mk.injEq] at h
        have h1 : p.2.length ≤ (digitRun cs).2.length := fraction?_length hf
        have h2 : q.2.length ≤ p.2.length := exponent?_length he
        refine ⟨?_, hne⟩
        rw [← h.2]
        omega

theorem word?_length {ws cs rest : List Char} (h : word? ws cs = some rest) :
    rest.length ≤ cs.length := by
  fun_induction word? ws cs with
  | case1 => cases h; simp
  | case2 _ _ _ ih => have := ih h; simp only [List.length_cons]; omega
  | case3 => cases h
  | case4 => cases h

theorem literal_length (word : List Char) (token : Token) (cs : List Char) :
    (literal word token cs).2.length ≤ cs.length := by
  unfold literal
  split
  · exact word?_length ‹_›
  · simp

theorem orBroken_length {α : Type} {found : Option (α × List Char)} {token : α → Token} {n : Nat}
    (h : ∀ a rest, found = some (a, rest) → rest.length ≤ n) :
    (orBroken found token).2.length ≤ n := by
  unfold orBroken
  split
  · exact h _ _ rfl
  · simp

/-- A number's digits are part of the text that holds it, so what is left of a
text behind a number is shorter. -/
theorem number?_length_cons {c : Char} {cs rest : List Char} {n : Numeral}
    (h : number? false (c :: cs) = some (n, rest)) : rest.length ≤ cs.length := by
  obtain ⟨h1, h2⟩ := number?_length h
  have : (digitRun (c :: cs)).2.length ≤ cs.length := by
    unfold digitRun at h2 ⊢
    by_cases hc : isDigit c
    · simpa [hc] using (List.dropWhile_sublist (l := cs) _).length_le
    · exact absurd (by simp [hc]) h2
  omega

theorem next_length (c : Char) (cs : List Char) : (next c cs).2.length ≤ cs.length := by
  unfold next
  split
  any_goals exact Nat.le_refl _
  · exact orBroken_length fun a rest h => quoted_length h
  · exact literal_length ..
  · exact literal_length ..
  · exact literal_length ..
  · refine orBroken_length fun a rest h => ?_
    have h1 := (number?_length h).1
    have h2 := digitRun_length cs
    omega
  · exact orBroken_length fun a rest h => number?_length_cons h

/-- The tokens of a text, up to the first place where none begins. -/
def scan : List Char → List Token
  | [] => []
  | c :: cs =>
    if isSpace c then scan cs
    else (next c cs).1 :: scan (next c cs).2
termination_by cs => cs.length
decreasing_by
  · simp
  · have := next_length c cs
    simp only [List.length_cons]
    omega

end Token

end JobOperator.Json
