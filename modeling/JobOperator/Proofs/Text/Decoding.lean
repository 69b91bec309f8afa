import JobOperator.Proofs.Text.ByteOrder

/-!
# Texts and their bytes

The bytes of a text are cut at the characters that they were made of, so nothing of a text is lost
on its way through them.

* `Utf8.unit_encodeChar`: the first byte of a character tells how many bytes follow, and the next
  one lies in the range that this leaves to it. The ranges are narrower where a character has a
  shorter form, spells a surrogate or lies beyond the last code point; none of them is a character.
* `Utf8.decodeLossy_encode`: **what is encoded is decoded**, without a replacement character.
-/

namespace JobOperator.Utf8

variable {n lo hi bits b : Nat} {rest : List UInt8}

theorem toNat_ofNat_of_lt (h : b < 256) : (UInt8.ofNat b).toNat = b := by
  rw [UInt8.toNat_ofNat', Nat.mod_eq_of_lt h]

/-- A byte in the range that is asked for is taken. -/
theorem continuation_ofNat (h : b < 256) (hlo : lo ≤ b) (hhi : b ≤ hi) :
    continuation (n + 1) lo hi bits (.ofNat b :: rest) =
      continuation n 0x80 0xBF (bits * 64 + b % 64) rest := by
  rw [continuation, toNat_ofNat_of_lt h, if_pos ⟨hlo, hhi⟩]

/-- A first byte tells how its character goes on. -/
theorem unit_ofNat {follow : Nat} (h : b < 256) (hmany : 128 ≤ b)
    (hlead : lead? b = some (follow, lo, hi)) :
    unit (.ofNat b) rest = continuation follow lo hi (leadBits follow b) rest := by
  rw [unit, toNat_ofNat_of_lt h, if_neg (Nat.not_lt.mpr hmany), hlead]

/-- The second of three bytes lies in its range: surrogates are no characters. -/
theorem lead?_three {v : Nat} (hlow : 0x800 ≤ v) (hhigh : v < 0x10000)
    (hvalid : v < 0xD800 ∨ 0xDFFF < v) :
    ∃ lo hi, lead? (v / 4096 % 16 + 224) = some (2, lo, hi) ∧ lo ≤ v / 64 % 64 + 128 ∧
      v / 64 % 64 + 128 ≤ hi := by
  simp only [lead?]
  split_ifs <;> first | omega | exact ⟨_, _, rfl, by omega, by omega⟩

/-- The second of four bytes lies in its range. -/
theorem lead?_four {v : Nat} (hlow : 0x10000 ≤ v) (hhigh : v < 0x110000) :
    ∃ lo hi, lead? (v / 262144 % 8 + 240) = some (3, lo, hi) ∧ lo ≤ v / 4096 % 64 + 128 ∧
      v / 4096 % 64 + 128 ≤ hi := by
  simp only [lead?]
  split_ifs <;> first | omega | exact ⟨_, _, rfl, by omega, by omega⟩

/-- The bytes of a character are one unit, whatever follows them. -/
theorem unit_encodeChar (c : Char) (rest : List UInt8) : ∃ b bytes,
    String.utf8EncodeChar c = b :: bytes ∧ unit b (bytes ++ rest) = (some c, rest) := by
  have hvalid : c.val.toNat < 0xD800 ∨ 0xDFFF < c.val.toNat ∧ c.val.toNat < 0x110000 := c.valid
  have hc : Char.ofNat c.val.toNat = c := Char.ofNat_toNat c
  simp only [String.utf8EncodeChar]
  generalize c.val.toNat = v at *
  split_ifs
  · refine ⟨_, _, rfl, ?_⟩
    rw [unit, toNat_ofNat_of_lt (by omega), if_pos (by omega), hc]
    rfl
  · refine ⟨_, _, rfl, ?_⟩
    have hlead : lead? (v / 64 % 32 + 192) = some (1, 0x80, 0xBF) := by
      rw [lead?, if_pos (by omega)]
    have hbits : (v / 64 % 32 + 192) % 32 * 64 + (v % 64 + 128) % 64 = v := by omega
    rw [unit_ofNat (by omega) (by omega) hlead, List.cons_append,
      continuation_ofNat (by omega) (by omega) (by omega), continuation]
    show (some (Char.ofNat ((v / 64 % 32 + 192) % 32 * 64 + (v % 64 + 128) % 64)), rest) = _
    rw [hbits, hc]
  · refine ⟨_, _, rfl, ?_⟩
    obtain ⟨lo, hi, hlead, hlo, hhi⟩ := lead?_three (v := v) (by omega) (by omega) (by omega)
    have hbits : ((v / 4096 % 16 + 224) % 16 * 64 + (v / 64 % 64 + 128) % 64) * 64 +
        (v % 64 + 128) % 64 = v := by omega
    rw [unit_ofNat (by omega) (by omega) hlead, List.cons_append,
      continuation_ofNat (by omega) hlo hhi, List.cons_append,
      continuation_ofNat (by omega) (by omega) (by omega), continuation]
    show (some (Char.ofNat (((v / 4096 % 16 + 224) % 16 * 64 + (v / 64 % 64 + 128) % 64) * 64 +
      (v % 64 + 128) % 64)), rest) = _
    rw [hbits, hc]
  · refine ⟨_, _, rfl, ?_⟩
    obtain ⟨lo, hi, hlead, hlo, hhi⟩ := lead?_four (v := v) (by omega) (by omega)
    have hbits : (((v / 262144 % 8 + 240) % 8 * 64 + (v / 4096 % 64 + 128) % 64) * 64 +
        (v / 64 % 64 + 128) % 64) * 64 + (v % 64 + 128) % 64 = v := by omega
    rw [unit_ofNat (by omega) (by omega) hlead, List.cons_append,
      continuation_ofNat (by omega) hlo hhi, List.cons_append,
      continuation_ofNat (by omega) (by omega) (by omega), List.cons_append,
      continuation_ofNat (by omega) (by omega) (by omega), continuation]
    show (some (Char.ofNat ((((v / 262144 % 8 + 240) % 8 * 64 + (v / 4096 % 64 + 128) % 64) * 64 +
      (v / 64 % 64 + 128) % 64) * 64 + (v % 64 + 128) % 64)), rest) = _
    rw [hbits, hc]

/-- The units of the bytes of a text are its characters. -/
theorem units_flatMap (cs : List Char) :
    units (cs.flatMap String.utf8EncodeChar) = cs.map some := by
  induction cs with
  | nil => rw [List.flatMap_nil, units, List.map_nil]
  | cons c cs ih =>
    obtain ⟨b, bytes, hbytes, hunit⟩ := unit_encodeChar c (cs.flatMap String.utf8EncodeChar)
    rw [List.flatMap_cons, hbytes, List.cons_append, units, hunit, ih, List.map_cons]

/-- **What is encoded is decoded.** -/
@[simp] theorem decodeLossy_encode (s : String) : decodeLossy (encode s) = s := by
  have hmap : (s.toList.map some).map (·.getD '\uFFFD') = s.toList := by
    rw [List.map_map]
    exact List.map_id _
  rw [decodeLossy, encode_eq_flatMap, units_flatMap, hmap, String.ofList_toList]

end JobOperator.Utf8
