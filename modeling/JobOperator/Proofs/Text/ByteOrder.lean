import JobOperator.Text.Utf8
import Mathlib.Tactic.ByContra
import Mathlib.Tactic.SplitIfs

/-!
# The order of texts

Texts are compared by their code points. Who compares their UTF-8 bytes comes to the same
result (`Utf8.encode_lt_encode`): the first byte of a character tells how long its form is, longer
forms are those of greater code points, and among forms of one length the digits of the code
point to base 64 stand in their order, the most significant one first.
-/

namespace JobOperator.Utf8

/-! ## The bytes of a text -/

theorem toList_loop (bytes : ByteArray) (i : Nat) (seen : List UInt8) :
    ByteArray.toList.loop bytes i seen = seen.reverse ++ bytes.data.toList.drop i := by
  fun_induction ByteArray.toList.loop bytes i seen with
  | case1 i seen h ih =>
    have hi : i < bytes.data.toList.length := by simpa using h
    rw [ih, List.drop_eq_getElem_cons hi]
    simp [ByteArray.get!, h]
  | case2 i seen h =>
    rw [List.drop_eq_nil_of_le (by simpa using Nat.le_of_not_lt h)]
    simp

theorem toByteArray_eq (s : String) :
    s.toByteArray = (s.toList.flatMap String.utf8EncodeChar).toByteArray := by
  conv => lhs; rw [← String.ofList_toList (s := s)]
  rfl

/-- The bytes of a text are those of its characters, one after another. -/
theorem encode_eq_flatMap (s : String) : encode s = s.toList.flatMap String.utf8EncodeChar := by
  simp only [encode, String.toUTF8_eq_toByteArray, ByteArray.toList, toList_loop, toByteArray_eq s,
    List.toList_data_toByteArray]
  rfl

/-! ## Characters -/

theorem ofNat_lt_ofNat {a b : Nat} (ha : a < 256) (hb : b < 256) :
    UInt8.ofNat a < UInt8.ofNat b ↔ a < b := by
  rw [UInt8.lt_iff_toNat_lt, UInt8.toNat_ofNat', UInt8.toNat_ofNat']
  omega

theorem ofNat_eq_ofNat {a b : Nat} (ha : a < 256) (hb : b < 256) :
    UInt8.ofNat a = UInt8.ofNat b ↔ a = b := by
  rw [← UInt8.toNat_inj, UInt8.toNat_ofNat', UInt8.toNat_ofNat']
  omega

/-- A code point has at most 21 bits. -/
theorem toNat_lt (c : Char) : c.val.toNat < 2097152 := by
  rcases c.valid with h | ⟨-, h⟩ <;> omega

/-- The bytes of the smaller character are smaller, whatever follows them. -/
theorem encodeChar_lt {c d : Char} (h : c < d) (xs ys : List UInt8) :
    String.utf8EncodeChar c ++ xs < String.utf8EncodeChar d ++ ys := by
  have hlt : c.val.toNat < d.val.toNat := h
  have hc := toNat_lt c
  have hd := toNat_lt d
  simp only [String.utf8EncodeChar]
  generalize c.val.toNat = v at *
  generalize d.val.toNat = w at *
  -- a digit is what is left of the digits above it
  have hdigits : ∀ n < 2097152,
      n / 4096 = n / 64 / 64 ∧ n / 262144 = n / 4096 / 64 ∧ n / 262144 % 8 = n / 262144 := by
    intro n hn
    refine ⟨?_, ?_, Nat.mod_eq_of_lt (by omega)⟩
    · rw [Nat.div_div_eq_div_mul]
    · rw [Nat.div_div_eq_div_mul]
  obtain ⟨hv, hv', hv''⟩ := hdigits v hc
  obtain ⟨hw, hw', hw''⟩ := hdigits w hd
  split_ifs <;> simp only [List.cons_append, List.nil_append, List.cons_lt_cons_iff] <;>
    simp (disch := omega) only [ofNat_lt_ofNat, ofNat_eq_ofNat] <;> omega

/-! ## Texts -/

theorem flatMap_lt {s t : List Char} (h : s < t) :
    s.flatMap String.utf8EncodeChar < t.flatMap String.utf8EncodeChar := by
  induction h with
  | @nil c t =>
    have hne : String.utf8EncodeChar c ≠ [] := by
      simp only [String.utf8EncodeChar]
      split_ifs <;> exact List.cons_ne_nil _ _
    obtain ⟨b, bytes, hb⟩ := List.exists_cons_of_ne_nil hne
    rw [List.flatMap_nil, List.flatMap_cons, hb]
    exact List.nil_lt_cons ..
  | rel hcd =>
    rw [List.flatMap_cons, List.flatMap_cons]
    exact encodeChar_lt hcd _ _
  | cons _ ih =>
    rw [List.flatMap_cons, List.flatMap_cons]
    exact List.append_left_lt ih

/-- **The order of texts is that of their bytes.** -/
theorem encode_lt_encode {s t : String} : encode s < encode t ↔ s < t := by
  rw [encode_eq_flatMap, encode_eq_flatMap, String.lt_iff]
  refine ⟨fun h => ?_, flatMap_lt⟩
  by_contra hnot
  rcases List.le_iff_lt_or_eq.mp (List.not_lt.mp hnot) with hlt | heq
  · exact List.lt_asymm h (flatMap_lt hlt)
  · rw [heq] at h
    exact List.lt_irrefl _ h

end JobOperator.Utf8
