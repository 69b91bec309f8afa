/-!
# UTF-8

Bytes read as text. The bytes are cut into *units*: a unit is one character, or
the longest run of bytes that begins a character and is then broken off (a
single byte if it can begin none).

* `Utf8.unit`: the first unit of some bytes and what follows it.
* `Utf8.decode?`: the text, if every unit is a character.
* `Utf8.decodeLossy`: the text with U+FFFD in the place of every other unit.
-/

namespace JobOperator.Utf8

/-- What the first byte of a character of several bytes promises: how many bytes
follow, and the least and greatest value of the next one. Narrower than a
general continuation byte where that would spell a surrogate, a code point above
U+10FFFF, or a character that has a shorter form. -/
def lead? (b : Nat) : Option (Nat × Nat × Nat) :=
  if 0xC2 ≤ b ∧ b ≤ 0xDF then some (1, 0x80, 0xBF)
  else if b = 0xE0 then some (2, 0xA0, 0xBF)
  else if b = 0xED then some (2, 0x80, 0x9F)
  else if 0xE1 ≤ b ∧ b ≤ 0xEF then some (2, 0x80, 0xBF)
  else if b = 0xF0 then some (3, 0x90, 0xBF)
  else if 0xF1 ≤ b ∧ b ≤ 0xF3 then some (3, 0x80, 0xBF)
  else if b = 0xF4 then some (3, 0x80, 0x8F)
  else none

/-- The payload bits of a first byte, given how many bytes follow it. -/
def leadBits (follow b : Nat) : Nat :=
  if follow = 1 then b % 0x20 else if follow = 2 then b % 0x10 else b % 0x08

/-- Takes the bytes that complete a character whose bits so far are `bits`. The
character, or `none` where the bytes break it off; and the bytes not taken. -/
def continuation : (follow lo hi bits : Nat) → List UInt8 → Option Char × List UInt8
  | 0, _, _, bits, rest => (some (Char.ofNat bits), rest)
  | _ + 1, _, _, _, [] => (none, [])
  | n + 1, lo, hi, bits, b :: rest =>
    if lo ≤ b.toNat ∧ b.toNat ≤ hi then
      continuation n 0x80 0xBF (bits * 0x40 + b.toNat % 0x40) rest
    else (none, b :: rest)

theorem continuation_length (follow lo hi bits : Nat) (bytes : List UInt8) :
    (continuation follow lo hi bits bytes).2.length ≤ bytes.length := by
  fun_induction continuation follow lo hi bits bytes with
  | case1 => simp
  | case2 => simp
  | case3 n lo hi bits b rest _ ih => simp only [List.length_cons]; omega
  | case4 => simp

/-- The first unit of bytes that begin with `b`, and the bytes after it. -/
def unit (b : UInt8) (rest : List UInt8) : Option Char × List UInt8 :=
  if b.toNat < 0x80 then (some (Char.ofNat b.toNat), rest)
  else match lead? b.toNat with
    | some (follow, lo, hi) => continuation follow lo hi (leadBits follow b.toNat) rest
    | none => (none, rest)

theorem unit_length (b : UInt8) (rest : List UInt8) : (unit b rest).2.length ≤ rest.length := by
  unfold unit
  split
  · simp
  · split
    · exact continuation_length ..
    · simp

/-- All units of some bytes; `none` stands for bytes that are no character. -/
def units : List UInt8 → List (Option Char)
  | [] => []
  | b :: rest => (unit b rest).1 :: units (unit b rest).2
termination_by bytes => bytes.length
decreasing_by
  have := unit_length b rest
  simp only [List.length_cons]
  omega

/-- The text that bytes spell, if they are well formed. -/
def decode? (bytes : List UInt8) : Option String :=
  ((units bytes).mapM id).map String.ofList

/-- The text that bytes spell, with a replacement character for every unit that
is none. -/
def decodeLossy (bytes : List UInt8) : String :=
  String.ofList ((units bytes).map (·.getD '\uFFFD'))

/-- The bytes of a text. -/
def encode (s : String) : List UInt8 := s.toUTF8.toList

-- Longer forms than needed and surrogates are refused.
example : decode? [0xC0, 0x80] = none ∧ decode? [0xED, 0xA0, 0x80] = none ∧
    decode? [0xF0, 0x9F, 0x98, 0x80] = some "😀" := by decide +kernel
example : decodeLossy [0x61, 0xE6, 0x97, 0x62, 0xFF] = "a\uFFFDb\uFFFD" := by decide +kernel

end JobOperator.Utf8
