import JobOperator.Json.Printer
import JobOperator.Json.Reader
import JobOperator.Proofs.Text.ByteOrder
import JobOperator.Proofs.Text.Digits

/-!
# A tree and its text

The text of a tree is cut into the tokens that it was made of, and they are put together to the same
tree.

* `Json.Plain`: a tree that has a written form of its own. Its numbers are integers, and there is a
  string for every quoted text in it.
* `Json.ink`: a text as the reader meets it, each byte as the character of its number.
* `Json.Token.scan_tokens`: the tokens are found again. Punctuation tells its end by itself and so
  does a quoted text, in which no quote stands by itself; a number ends before whatever does not
  continue it.
* `Json.readValue_tokens`: the tree is found again, and what stands behind it is left.
* `Json.decode_render`: **what is written is read**, whatever strings are in it.
-/

namespace JobOperator.Json

/-- A tree that has a written form of its own. -/
inductive Plain : Json → Prop where
  | null : Plain .null
  | bool (value : Bool) : Plain (.bool value)
  | int (n : Int) : Plain (.int n)
  | str (s : String) : Plain (.str s)
  | array {items : List Json} (each : ∀ item ∈ items, Plain item) : Plain (.array items)
  | record {members : List (String × Json)} (each : ∀ e ∈ members, Plain e.2) :
      Plain (.record members)

/-- A text as it is read, byte by byte. -/
def ink (cs : List Char) : List Char :=
  (cs.flatMap String.utf8EncodeChar).map fun b => Char.ofNat b.toNat

theorem ink_append (cs ds : List Char) : ink (cs ++ ds) = ink cs ++ ink ds := by
  rw [ink, List.flatMap_append, List.map_append, ink, ink]

/-- An ASCII character is its only byte. -/
theorem ink_singleton {c : Char} (h : c.toNat < 128) : ink [c] = [c] := by
  have hv : c.val.toNat ≤ 127 := Nat.le_of_lt_succ h
  have hbytes : String.utf8EncodeChar c = [UInt8.ofNat c.val.toNat] := by
    simp only [String.utf8EncodeChar, hv, if_true]
  have hchar : Char.ofNat (UInt8.ofNat c.val.toNat).toNat = c := by
    rw [UInt8.toNat_ofNat', Nat.mod_eq_of_lt (by omega)]
    exact Char.ofNat_toNat c
  simp only [ink, List.flatMap_cons, List.flatMap_nil, hbytes, List.append_nil, List.map_cons,
    List.map_nil, hchar]

theorem ink_ascii {cs : List Char} (h : ∀ c ∈ cs, c.toNat < 128) : ink cs = cs := by
  induction cs with
  | nil => rfl
  | cons c cs ih =>
    obtain ⟨hc, hcs⟩ := List.forall_mem_cons.mp h
    rw [← List.singleton_append, ink_append, ink_singleton hc, ih hcs]

namespace Token

variable {c : Char} {cs rest : List Char} {ps : List Piece} {bytes : List UInt8}

/-! ## Quoted texts -/

/-- The pieces that a character is written as. -/
def piecesOf (c : Char) : List Piece :=
  if c = '"' ∨ c = '\\' ∨ c.toNat < 0x20 then [.unit c.toNat]
  else (String.utf8EncodeChar c).map .byte

/-- A byte that is no quote, no backslash and no control character. -/
def plainByte (b : UInt8) : Prop := 0x20 ≤ b.toNat ∧ b.toNat ≠ 0x22 ∧ b.toNat ≠ 0x5C

theorem plainByte_of_mem (h : ¬ (c = '"' ∨ c = '\\' ∨ c.toNat < 0x20)) {b : UInt8}
    (hb : b ∈ String.utf8EncodeChar c) : plainByte b := by
  obtain ⟨hquote, hbackslash, hcontrol⟩ : c.val.toNat ≠ 0x22 ∧ c.val.toNat ≠ 0x5C ∧
      0x20 ≤ c.val.toNat := by
    refine ⟨fun heq => h (.inl ?_), fun heq => h (.inr (.inl ?_)),
      Nat.le_of_not_lt fun hlt => h (.inr (.inr hlt))⟩
    · exact Char.ext (UInt32.toNat_inj.mp heq)
    · exact Char.ext (UInt32.toNat_inj.mp heq)
  simp only [String.utf8EncodeChar] at hb
  generalize c.val.toNat = v at *
  split_ifs at hb <;> simp only [List.mem_cons, List.not_mem_nil, or_false] at hb <;>
    rcases hb with rfl | rfl | rfl | rfl <;>
    simp only [plainByte, UInt8.toNat_ofNat'] <;> omega

theorem quoted_cons (hquote : c ≠ '"') (hbackslash : c ≠ '\\') (hcontrol : 0x20 ≤ c.toNat) :
    quoted ps (c :: cs) = quoted (.byte (.ofNat c.toNat) :: ps) cs := by
  rw [quoted.eq_def]
  split
  · next h => cases h
  · next h => exact absurd (List.cons.inj h).1 hquote
  · next h => exact absurd (List.cons.inj h).1 hbackslash
  · next h => exact absurd (List.cons.inj h).1 hbackslash
  · next h =>
    obtain ⟨rfl, rfl⟩ := List.cons.inj h
    rw [if_neg]
    simp [hbackslash, Nat.not_lt.mpr hcontrol]

theorem toNat_ofNat_byte (b : UInt8) : (Char.ofNat b.toNat).toNat = b.toNat := by
  have hvalid : b.toNat.isValidChar := .inl (Nat.lt_trans b.toNat_lt (by decide))
  rw [Char.ofNat, dif_pos hvalid]
  rfl

/-- Bytes stand in a quoted text as they are. -/
theorem quoted_bytes (h : ∀ b ∈ bytes, plainByte b) :
    quoted ps ((bytes.map fun b => Char.ofNat b.toNat) ++ rest) =
      quoted ((bytes.map .byte).reverse ++ ps) rest := by
  induction bytes generalizing ps with
  | nil => rfl
  | cons b bytes ih =>
    obtain ⟨⟨hcontrol, hquote, hbackslash⟩, hbytes⟩ := List.forall_mem_cons.mp h
    have hnat := toNat_ofNat_byte b
    have hb : UInt8.ofNat (Char.ofNat b.toNat).toNat = b := by rw [hnat, UInt8.ofNat_toNat]
    rw [List.map_cons, List.cons_append, quoted_cons, hb, ih hbytes, List.map_cons,
      List.reverse_cons, List.append_assoc, List.singleton_append]
    · rintro heq
      rw [heq] at hnat
      exact hquote hnat.symm
    · rintro heq
      rw [heq] at hnat
      exact hbackslash hnat.symm
    · rw [hnat]
      exact hcontrol

/-- The escape of a control character that has no short one. -/
def longEscape (n : Nat) : List Char :=
  ['\\', 'u', '0', '0', Nat.digitChar (n / 16), Nat.digitChar (n % 16)]

theorem longEscape_ascii {n : Nat} (h : n < 0x20) : ∀ c ∈ longEscape n, c.toNat < 128 := by
  have hall := (by decide : ∀ n < 0x20, (longEscape n).all (·.toNat < 128) = true) n h
  exact fun c hc => of_decide_eq_true (List.all_eq_true.mp hall c hc)

theorem quoted_longEscape {n : Nat} (h : n < 0x20) :
    quoted ps (longEscape n ++ rest) = quoted (.unit n :: ps) rest := by
  have hunit := (by decide : ∀ n < 0x20,
    unit? '0' '0' (Nat.digitChar (n / 16)) (Nat.digitChar (n % 16)) = some n) n h
  show quoted ps ('\\' :: 'u' :: '0' :: '0' :: _ :: _ :: rest) = _
  rw [quoted, hunit]

/-- What a character is written as is read as its pieces. -/
theorem quoted_escape (c : Char) :
    quoted ps (ink (escape c) ++ rest) = quoted ((piecesOf c).reverse ++ ps) rest := by
  rw [escape]
  split_ifs with h1 h2 h3 h4 h5 h6 h7 hcontrol
  · subst h1; rfl
  · subst h2; rfl
  · subst h3; rfl
  · subst h4; rfl
  · subst h5; rfl
  · subst h6; rfl
  · subst h7; rfl
  · have hink : ink (longEscape c.toNat) = longEscape c.toNat :=
      ink_ascii (longEscape_ascii hcontrol)
    rw [piecesOf, if_pos (.inr (.inr hcontrol))]
    exact (congrArg (fun cs => quoted ps (cs ++ rest)) hink).trans (quoted_longEscape hcontrol)
  · have hplain : ¬ (c = '"' ∨ c = '\\' ∨ c.toNat < 0x20) := by simp [h1, h2, hcontrol]
    rw [piecesOf, if_neg hplain, ink, List.flatMap_cons, List.flatMap_nil, List.append_nil]
    exact quoted_bytes fun b hb => plainByte_of_mem hplain hb

theorem quoted_text (cs : List Char) : quoted ps (ink (cs.flatMap escape) ++ '"' :: rest) =
    some ((cs.flatMap piecesOf).reverse ++ ps, rest) := by
  induction cs generalizing ps with
  | nil => rfl
  | cons c cs ih =>
    rw [List.flatMap_cons, ink_append, List.append_assoc, quoted_escape, ih, List.flatMap_cons,
      List.reverse_append, List.append_assoc]

theorem spell_bytes (before : List UInt8) :
    spell before (bytes.map .byte ++ ps) = spell (bytes.reverse ++ before) ps := by
  induction bytes generalizing before with
  | nil => rfl
  | cons b bytes ih =>
    rw [List.map_cons, List.cons_append, spell, ih, List.reverse_cons, List.append_assoc,
      List.singleton_append]

/-- The pieces of a character spell its bytes. No character is half of a surrogate pair. -/
theorem spell_piecesOf (c : Char) (before : List UInt8) : spell before (piecesOf c ++ ps) =
    spell ((String.utf8EncodeChar c).reverse ++ before) ps := by
  rw [piecesOf]
  split_ifs
  · have hvalid : c.toNat < 0xD800 ∨ 0xDFFF < c.toNat ∧ c.toNat < 0x110000 := c.valid
    rw [List.singleton_append, spell.eq_def]
    dsimp only
    rw [if_neg (by omega), if_neg (by omega), Char.ofNat_toNat]
  · exact spell_bytes before

theorem spell_text (cs : List Char) (before : List UInt8) : spell before (cs.flatMap piecesOf) =
    some (before.reverse ++ cs.flatMap String.utf8EncodeChar) := by
  induction cs generalizing before with
  | nil => simp [spell]
  | cons c cs ih =>
    rw [List.flatMap_cons, spell_piecesOf, ih, List.reverse_append, List.reverse_reverse,
      List.append_assoc, List.flatMap_cons]

theorem fromUTF8?_bytes (s : String) :
    String.fromUTF8? ⟨(s.toList.flatMap String.utf8EncodeChar).toArray⟩ = some s := by
  have hbytes : ⟨(s.toList.flatMap String.utf8EncodeChar).toArray⟩ = s.toByteArray := by
    refine ByteArray.ext (Array.toList_inj.mp ?_)
    rw [Utf8.toByteArray_eq, List.toList_data_toByteArray]
  rw [hbytes]
  exact dif_pos s.isValidUTF8

/-- **A quoted text is read as the string that it was written for.** -/
theorem text?_text (s : String) : text? (s.toList.flatMap piecesOf) = some s := by
  rw [text?, spell_text, List.reverse_nil, List.nil_append, Option.bind_some, fromUTF8?_bytes]

/-! ## Numbers -/

/-- What stands here does not continue a number. -/
def Stops (rest : List Char) : Prop :=
  ∀ c, rest.head? = some c → Digits.isDigit c = false ∧ c ≠ '.' ∧ c ≠ 'e' ∧ c ≠ 'E'

theorem stops_nil : Stops [] := nofun

theorem stops_cons (h : Digits.isDigit c = false ∧ c ≠ '.' ∧ c ≠ 'e' ∧ c ≠ 'E') (cs : List Char) :
    Stops (c :: cs) := fun _ hc => Option.some.inj hc ▸ h

theorem fraction?_of_stops (h : Stops rest) : fraction? rest = some ([], rest) := by
  rw [fraction?.eq_def]
  split
  · next => exact absurd rfl (h _ rfl).2.1
  · rfl

theorem exponent?_of_stops (h : Stops rest) : exponent? rest = some (none, rest) := by
  cases rest with
  | nil => rfl
  | cons c rest =>
    obtain ⟨-, -, he, hE⟩ := h c rfl
    rw [exponent?.eq_def]
    exact if_neg (by simp [he, hE])

/-- A number is read up to where it stops. -/
theorem number?_toDigits (negative : Bool) (n : Nat) (h : Stops rest) :
    number? negative (Nat.toDigits 10 n ++ rest) = some (⟨negative, n, [], none⟩, rest) := by
  have hspells := Digits.spells_toDigits n
  have hstop : ∀ c, rest.head? = some c → Digits.isDigit c = false := fun c hc => (h c hc).1
  have hrun : digitRun (Nat.toDigits 10 n ++ rest) = (Nat.toDigits 10 n, rest) := by
    rw [digitRun, hspells.takeWhile hstop, hspells.dropWhile hstop]
  have hwhole : ¬ ((Nat.toDigits 10 n).isEmpty || ((Nat.toDigits 10 n).head? = some '0' &&
      (Nat.toDigits 10 n).length > 1)) := by
    have hne : (Nat.toDigits 10 n).isEmpty = false :=
      List.isEmpty_eq_false_iff.mpr Nat.toDigits_ne_nil
    simp only [hne, Bool.false_or, Bool.and_eq_true, decide_eq_true_eq, not_and]
    intro hzero
    rw [Digits.head?_toDigits hzero]
    decide
  rw [number?, hrun]
  dsimp only
  rw [if_neg hwhole, fraction?_of_stops h]
  dsimp only [Option.bind_eq_bind, Option.bind_some]
  rw [exponent?_of_stops h, hspells.value]
  rfl

/-- What begins with a digit is a number. -/
theorem next_digit (h : Digits.isDigit c = true) :
    next c cs = orBroken (number? false (c :: cs)) .number := by
  have hne (d : Char) (hd : Digits.isDigit d = false) : c ≠ d := by
    rintro rfl
    exact nomatch h.symm.trans hd
  rw [next.eq_def]
  split <;> first | rfl | exact absurd rfl (hne _ (by decide))

/-! ## Tokens -/

theorem isSpace_of_isDigit (h : Digits.isDigit c = true) : isSpace c = false := by
  have hblank := Digits.isBlank_of_isDigit h
  by_contra hspace
  simp only [Bool.not_eq_false, isSpace, Bool.or_eq_true, decide_eq_true_eq] at hspace
  rcases hspace with ((rfl | rfl) | rfl) | rfl <;> exact absurd hblank (by decide)

theorem scan_of_next {t : Token} (hspace : isSpace c = false) (h : next c cs = (t, rest)) :
    scan (c :: cs) = t :: scan rest := by
  rw [scan, hspace, h]
  rfl

theorem renderNumeral_ofInt (n : Int) : renderNumeral (.ofInt n) =
    (if n < 0 then ['-'] else []) ++ Nat.toDigits 10 n.natAbs := by
  simp [renderNumeral, Numeral.ofInt]

theorem scan_int (n : Int) (h : Stops rest) :
    scan (ink (render (.number (.ofInt n))) ++ rest) = .number (.ofInt n) :: scan rest := by
  have hdigits : ∀ c ∈ Nat.toDigits 10 n.natAbs, c.toNat < 128 := by
    intro c hc
    have hle : c ≤ '9' :=
      of_decide_eq_true (Bool.and_eq_true_iff.mp (Digits.isDigit_of_mem_toDigits hc)).2
    exact Nat.lt_of_le_of_lt (show c.toNat ≤ 57 from hle) (by decide)
  have hascii : ∀ c ∈ renderNumeral (.ofInt n), c.toNat < 128 := by
    intro c hc
    rw [renderNumeral_ofInt] at hc
    rcases List.mem_append.mp hc with hsign | hc
    · split at hsign
      · rw [List.mem_singleton.mp hsign]
        decide
      · cases hsign
    · exact hdigits c hc
  rw [render, ink_ascii hascii, renderNumeral_ofInt]
  split
  · next hneg =>
    have hnumeral : Numeral.ofInt n = ⟨true, n.natAbs, [], none⟩ := by
      rw [Numeral.ofInt, decide_eq_true hneg]
    rw [hnumeral]
    exact scan_of_next rfl (congrArg (orBroken · .number) (number?_toDigits true n.natAbs h))
  · next hpos =>
    have hnumeral : Numeral.ofInt n = ⟨false, n.natAbs, [], none⟩ := by
      rw [Numeral.ofInt, decide_eq_false hpos]
    have hnumber := number?_toDigits false n.natAbs h
    have hfirst := (Digits.spells_toDigits n.natAbs).digits
    obtain ⟨c, cs, hcs⟩ : ∃ c cs, Nat.toDigits 10 n.natAbs = c :: cs :=
      List.exists_cons_of_ne_nil Nat.toDigits_ne_nil
    rw [hcs] at hnumber hfirst ⊢
    have hdigit := hfirst c List.mem_cons_self
    rw [hnumeral, List.nil_append, List.cons_append]
    refine scan_of_next (isSpace_of_isDigit hdigit) ?_
    rw [next_digit hdigit]
    exact congrArg (orBroken · .number) hnumber

/-- A quoted text is read, whatever stands in it. -/
theorem scan_string (s : String) :
    scan (ink (render (.string (some s))) ++ rest) = .string (some s) :: scan rest := by
  have hink : ink (render (.string (some s))) ++ rest =
      '"' :: (ink (s.toList.flatMap escape) ++ '"' :: rest) := by
    rw [render, ink_append, ← List.singleton_append, ink_append, ink_singleton (by decide)]
    simp
  rw [hink]
  refine scan_of_next rfl ?_
  show orBroken (quoted [] _) _ = _
  rw [quoted_text, List.append_nil]
  show (Token.string (text? (List.reverse (List.reverse _))), rest) = _
  rw [List.reverse_reverse, text?_text]

/-- The words and the punctuation. -/
def fixed : List Token := [.null, .bool true, .bool false, .comma, .colon, .openArray, .closeArray,
  .openObject, .closeObject]

/-- The punctuation that may stand behind a value. -/
def enders : List Token := [.comma, .closeArray, .closeObject]

theorem enders_subset_fixed : enders ⊆ fixed := by decide

/-- A word and punctuation end by themselves. -/
theorem scan_fixed {t : Token} (ht : t ∈ fixed) :
    scan (ink (render t) ++ rest) = t :: scan rest := by
  simp only [fixed, List.mem_cons, List.not_mem_nil, or_false] at ht
  rcases ht with rfl | rfl | rfl | rfl | rfl | rfl | rfl | rfl | rfl <;> exact scan_of_next rfl rfl

end Token

/-! ## Trees -/

/-- A text that some tokens are written as, in the form in which it is read. -/
def written (tokens : List Token) : List Char := ink (tokens.flatMap Token.render)

variable {value : Json} {items : List Json} {members : List (String × Json)} {rest : List Char}
  {before : List Token}

theorem written_append (ts ts' : List Token) : written (ts ++ ts') = written ts ++ written ts' := by
  rw [written, List.flatMap_append, ink_append, written, written]

theorem written_cons (t : Token) (ts : List Token) :
    written (t :: ts) = ink t.render ++ written ts := by
  rw [written, List.flatMap_cons, ink_append, written]

theorem itemTokens_cons_cons (item next : Json) (items : List Json) :
    itemTokens (item :: next :: items) = item.tokens ++ .comma :: itemTokens (next :: items) := by
  rw [itemTokens]
  exact nofun

/-- The members of a record, as a tree has them. -/
def keyed (members : List (String × Json)) : List (Option String × Json) :=
  members.map fun e => (some e.1, e.2)

theorem memberTokens_cons_cons (e next : String × Json) (members : List (String × Json)) :
    memberTokens (keyed (e :: next :: members)) = .string (some e.1) :: .colon :: e.2.tokens ++
      .comma :: memberTokens (keyed (next :: members)) := by
  rw [keyed, List.map_cons, memberTokens]
  · rfl
  · exact nofun

section Scanning

open Token

/-- Punctuation is found, and then whatever follows it. -/
theorem scan_written_cons {t : Token} (ht : t ∈ fixed) {ts ts' : List Token}
    (h : scan (written ts ++ rest) = ts') : scan (written (t :: ts) ++ rest) = t :: ts' := by
  rw [written_cons, List.append_assoc, scan_fixed ht, h]

/-- A number stops before a comma, and at the end of an array or a record. -/
theorem stops_written {t : Token} (ht : t ∈ enders) (ts : List Token) (rest : List Char) :
    Stops (written (t :: ts) ++ rest) := by
  simp only [enders, List.mem_cons, List.not_mem_nil, or_false] at ht
  rcases ht with rfl | rfl | rfl <;> exact stops_cons (by decide) _

/-- The tokens of a tree are found in its text, and then what follows. -/
def Scans (tokens : List Token) : Prop :=
  ∀ rest, Stops rest → scan (written tokens ++ rest) = tokens ++ scan rest

/-- One tree after another, if the next token ends a number. -/
theorem Scans.then (h : Scans before) {t : Token} (ht : t ∈ enders) {ts ts' : List Token}
    (hts : scan (written ts ++ rest) = ts') :
    scan (written (before ++ t :: ts) ++ rest) = before ++ t :: ts' := by
  rw [written_append, List.append_assoc, h _ (stops_written ht ts rest),
    scan_written_cons (enders_subset_fixed ht) hts]

theorem scans_items (each : ∀ item ∈ items, Scans item.tokens) : Scans (itemTokens items) := by
  induction items with
  | nil => exact fun _ _ => rfl
  | cons item items ih =>
    obtain ⟨hitem, hitems⟩ := List.forall_mem_cons.mp each
    cases items with
    | nil => exact hitem
    | cons next items =>
      intro rest hrest
      rw [itemTokens_cons_cons, List.append_assoc]
      exact hitem.then (by decide) (ih hitems rest hrest)

theorem scans_members (each : ∀ e ∈ members, Scans e.2.tokens) :
    Scans (memberTokens (keyed members)) := by
  have hkey (key : String) {ts ts' : List Token} {rest : List Char}
      (h : scan (written ts ++ rest) = ts') :
      scan (written (.string (some key) :: .colon :: ts) ++ rest) =
        .string (some key) :: .colon :: ts' := by
    rw [written_cons, List.append_assoc, scan_string, scan_written_cons (by decide) h]
  induction members with
  | nil => exact fun _ _ => rfl
  | cons e members ih =>
    obtain ⟨hvalue, hvalues⟩ := List.forall_mem_cons.mp each
    cases members with
    | nil => exact fun rest hrest => hkey e.1 (hvalue rest hrest)
    | cons next members =>
      intro rest hrest
      rw [memberTokens_cons_cons, List.cons_append, List.cons_append, List.cons_append,
        List.cons_append, List.append_assoc]
      exact hkey e.1 (hvalue.then (by decide) (ih hvalues rest hrest))

/-- **The tokens of a tree are found in its text.** -/
theorem scans_tokens (h : Plain value) : Scans value.tokens := by
  have hnone (rest : List Char) : scan (written [] ++ rest) = scan rest := rfl
  induction h with
  | null => exact fun rest _ => scan_written_cons (by decide) (hnone rest)
  | bool b => cases b <;> exact fun rest _ => scan_written_cons (by decide) (hnone rest)
  | int n =>
    intro rest hrest
    rw [tokens, written_cons, List.append_assoc]
    exact scan_int n hrest
  | str s =>
    intro rest _
    rw [tokens, written_cons, List.append_assoc]
    exact scan_string s
  | array each ih =>
    intro rest _
    rw [tokens, List.cons_append, List.cons_append, List.append_assoc]
    exact scan_written_cons (by decide) ((scans_items ih).then (by decide) (hnone rest))
  | record each ih =>
    intro rest _
    rw [tokens, List.cons_append, List.cons_append, List.append_assoc]
    exact scan_written_cons (by decide) ((scans_members ih).then (by decide) (hnone rest))

end Scanning

/-! ## Descent -/

section Reading

open Token

/-- Descent over the tokens of a tree finds the tree, and leaves what stands behind it. -/
structure Found (value : Json) : Prop where
  /-- an array or a record does not end where a value begins -/
  start : ∃ t ts, value.tokens = t :: ts ∧ t ≠ .closeArray
  reads : ∀ fuel rest, 2 * value.tokens.length ≤ fuel + 1 →
    readValue fuel (value.tokens ++ rest) = (value, rest)

theorem Found.pos (h : Found value) : 0 < value.tokens.length := by
  obtain ⟨t, ts, htokens, -⟩ := h.start
  rw [htokens, List.length_cons]
  exact Nat.succ_pos _

theorem Found.start_items {item : Json} (h : Found item) (items : List Json) :
    ∃ t ts, itemTokens (item :: items) = t :: ts ∧ t ≠ .closeArray := by
  obtain ⟨t, ts, hitem, ht⟩ := h.start
  cases items with
  | nil => exact ⟨t, ts, hitem, ht⟩
  | cons next items =>
    rw [itemTokens_cons_cons, hitem]
    exact ⟨t, _, rfl, ht⟩

/-- A single token is found where it is a value. -/
theorem found_of_token {t : Token} (htokens : value.tokens = [t]) (hstart : t ≠ .closeArray)
    (hread : ∀ fuel rest, readValue (fuel + 1) (t :: rest) = (value, rest)) : Found value where
  start := ⟨t, [], htokens, hstart⟩
  reads := by
    intro fuel rest hfuel
    rw [htokens, List.length_singleton] at hfuel
    obtain ⟨fuel, rfl⟩ : ∃ n, fuel = n + 1 := ⟨fuel - 1, by omega⟩
    rw [htokens]
    exact hread fuel rest

theorem readItems_tokens (each : ∀ item ∈ items, Found item) (hne : items ≠ []) :
    ∀ fuel rest, 2 * (itemTokens items).length ≤ fuel →
      readItems fuel (itemTokens items ++ .closeArray :: rest) = (items, rest) := by
  induction items with
  | nil => exact absurd rfl hne
  | cons item items ih =>
    obtain ⟨hitem, hitems⟩ := List.forall_mem_cons.mp each
    have hpos := hitem.pos
    intro fuel rest hfuel
    cases items with
    | nil =>
      have htokens : itemTokens [item] = item.tokens := rfl
      rw [htokens] at hfuel
      obtain ⟨fuel, rfl⟩ : ∃ n, fuel = n + 1 := ⟨fuel - 1, by omega⟩
      have hread := hitem.reads fuel (.closeArray :: rest) (by omega)
      rw [htokens, readItems, hread]
    | cons next items =>
      rw [itemTokens_cons_cons, List.length_append, List.length_cons] at hfuel
      obtain ⟨fuel, rfl⟩ : ∃ n, fuel = n + 1 := ⟨fuel - 1, by omega⟩
      have hread := hitem.reads fuel (.comma :: (itemTokens (next :: items) ++ .closeArray :: rest))
        (by omega)
      rw [itemTokens_cons_cons, List.append_assoc, List.cons_append, readItems, hread]
      dsimp only
      rw [ih hitems nofun fuel rest (by omega)]

theorem readMembers_tokens (each : ∀ e ∈ members, Found e.2) (hne : members ≠ []) :
    ∀ fuel rest, 2 * (memberTokens (keyed members)).length ≤ fuel →
      readMembers fuel (memberTokens (keyed members) ++ .closeObject :: rest) =
        (keyed members, rest) := by
  induction members with
  | nil => exact absurd rfl hne
  | cons e members ih =>
    obtain ⟨hvalue, hvalues⟩ := List.forall_mem_cons.mp each
    have hpos := hvalue.pos
    intro fuel rest hfuel
    cases members with
    | nil =>
      have htokens : memberTokens (keyed [e]) = .string (some e.1) :: .colon :: e.2.tokens := rfl
      rw [htokens, List.length_cons, List.length_cons] at hfuel
      obtain ⟨fuel, rfl⟩ : ∃ n, fuel = n + 1 := ⟨fuel - 1, by omega⟩
      have hread := hvalue.reads fuel (.closeObject :: rest) (by omega)
      rw [htokens, List.cons_append, List.cons_append, readMembers, hread]
      rfl
    | cons next members =>
      rw [memberTokens_cons_cons, List.length_append, List.length_cons, List.length_cons,
        List.length_cons] at hfuel
      obtain ⟨fuel, rfl⟩ : ∃ n, fuel = n + 1 := ⟨fuel - 1, by omega⟩
      have hread := hvalue.reads fuel
        (.comma :: (memberTokens (keyed (next :: members)) ++ .closeObject :: rest)) (by omega)
      rw [memberTokens_cons_cons, List.append_assoc, List.cons_append, List.cons_append,
        List.cons_append, readMembers, hread]
      dsimp only
      rw [ih hvalues nofun fuel rest (by omega)]
      rfl

/-- An array that does not end at once has items. -/
theorem readValue_openArray {t : Token} (ht : t ≠ .closeArray) (fuel : Nat) (ts : List Token) :
    readValue (fuel + 1) (.openArray :: t :: ts) =
      (.array (readItems fuel (t :: ts)).1, (readItems fuel (t :: ts)).2) := by
  cases t <;> first | rfl | exact absurd rfl ht

/-- **Descent over the tokens of a tree finds the tree.** -/
theorem found_tokens (h : Plain value) : Found value := by
  induction h with
  | null => exact found_of_token rfl nofun fun _ _ => rfl
  | bool b => exact found_of_token rfl nofun fun _ _ => rfl
  | int n => exact found_of_token rfl nofun fun _ _ => rfl
  | str s => exact found_of_token rfl nofun fun _ _ => rfl
  | @array items each ih =>
    refine ⟨⟨.openArray, _, rfl, nofun⟩, fun fuel rest hfuel => ?_⟩
    have htokens : (Json.array items).tokens =
        .openArray :: (itemTokens items ++ [.closeArray]) := by
      rw [tokens, List.cons_append]
    rw [htokens, List.length_cons, List.length_append, List.length_singleton] at hfuel
    obtain ⟨fuel, rfl⟩ : ∃ n, fuel = n + 1 := ⟨fuel - 1, by omega⟩
    rw [htokens, List.cons_append, List.append_assoc, List.singleton_append]
    cases items with
    | nil => rfl
    | cons item items =>
      have hread := readItems_tokens ih nofun fuel rest (by omega)
      obtain ⟨t, ts, hstart, ht⟩ := (ih item List.mem_cons_self).start_items items
      rw [hstart, List.cons_append] at hread ⊢
      rw [readValue_openArray ht, hread]
  | @record members each ih =>
    refine ⟨⟨.openObject, _, rfl, nofun⟩, fun fuel rest hfuel => ?_⟩
    have htokens : (Json.record members).tokens =
        .openObject :: (memberTokens (keyed members) ++ [.closeObject]) := by
      rw [tokens, List.cons_append]
      rfl
    rw [htokens, List.length_cons, List.length_append, List.length_singleton] at hfuel
    obtain ⟨fuel, rfl⟩ : ∃ n, fuel = n + 1 := ⟨fuel - 1, by omega⟩
    rw [htokens, List.cons_append, List.append_assoc, List.singleton_append]
    cases members with
    | nil => rfl
    | cons e members =>
      have hread := readMembers_tokens ih nofun fuel rest (by omega)
      obtain ⟨ts, hstart⟩ : ∃ ts, memberTokens (keyed (e :: members)) =
          .string (some e.1) :: ts := by
        cases members with
        | nil => exact ⟨_, rfl⟩
        | cons next members => exact ⟨_, memberTokens_cons_cons e next members⟩
      rw [hstart, List.cons_append] at hread ⊢
      show (Json.object (readMembers fuel _).1, (readMembers fuel _).2) = _
      rw [hread]
      rfl

end Reading

/-! ## Texts -/

/-- What is written is read as the tree that it was written for. -/
theorem ofBytes_render (h : Plain value) : ofBytes (Utf8.encode value.render) = ⟨value, false⟩ := by
  have hbytes : (Utf8.encode value.render).map (fun b => Char.ofNat b.toNat) =
      written value.tokens := by
    rw [Utf8.encode_eq_flatMap, render, String.toList_ofList]
    rfl
  have hscan : Token.scan (written value.tokens) = value.tokens := by
    have hscans := scans_tokens h [] Token.stops_nil
    rw [List.append_nil] at hscans
    exact hscans.trans (by rw [Token.scan, List.append_nil])
  have hread := (found_tokens h).reads (2 * value.tokens.length + 1) [] (by omega)
  rw [List.append_nil] at hread
  rw [ofBytes, hbytes, hscan, ofTokens, hread]
  rfl

/-- **What is written is read.** -/
theorem decode_render {α : Type} (h : Plain value) (read : Json → Reading α) :
    decode read (Utf8.encode value.render) = read value := by
  rw [decode, ofBytes_render h]
  cases read value <;> rfl

end JobOperator.Json
