import JobOperator.Proofs.Json.Record
import JobOperator.Proofs.Table
import JobOperator.Worker.Codec

/-!
# Specs come back

* `Json.Preserves`: what a place in which documents are kept may do to them. Plain values stay
  as they are, and the members of a record may change their order.
* `Json.readBelow_eq_ok_iff`: which values are read as a number.
* `Job.Spec.ofJson_toJson`, `Worker.Spec.ofJson_toJson`: a spec that was kept in such a place is
  read back **as it was**: whatever texts and numbers it has, and whatever is left out.

There is one lemma for each kind of value, one for a field of each kind, and for a record only
its fields are gone through.
-/

namespace JobOperator

/-- A numeral spells an integer if it is the numeral of the integer: it has no point, no exponent,
and no sign in front of a zero. -/
theorem Numeral.toInt?_eq_some_iff {n : Numeral} {k : Int} : n.toInt? = some k ↔ n = .ofInt k := by
  constructor
  · intro h
    obtain ⟨negative, whole, fraction, exponent⟩ := n
    unfold toInt? at h
    split at h
    · next hplain =>
      obtain ⟨rfl, rfl⟩ : fraction = [] ∧ exponent = none := hplain
      cases negative with
      | false =>
        obtain rfl := Option.some.inj h
        rfl
      | true =>
        obtain ⟨hne, rfl⟩ : whole ≠ 0 ∧ -(whole : Int) = k := by simpa using h
        simp [ofInt]
        omega
    · cases h
  · rintro rfl
    exact toInt?_ofInt k

namespace Json

/-- Plain values stay as they are, and the members of a record are the same but for their order. -/
structure Preserves (keep : Json → Json) : Prop where
  null : keep .null = .null
  str : ∀ s, keep (.str s) = .str s
  nat : ∀ n : Nat, keep (.nat n) = .nat n
  record : ∀ members : List (String × Json), (members.map (·.1)).Nodup →
    ∃ found, keep (.record members) = .object found ∧
      found.Perm (members.map fun e => (some e.1, keep e.2))

variable {keep : Json → Json} {α : Type}

/-! ## Values -/

/-- **The values that are read as a number below a bound**: its numeral, and no others. -/
theorem readBelow_eq_ok_iff {bound n : Nat} {value : Json} :
    readBelow bound value = .ok n ↔ value = .nat n ∧ n < bound := by
  constructor
  · intro h
    unfold readBelow at h
    split at h
    · split at h
      · next k hspells =>
        split at h
        · next hbelow =>
          obtain rfl := Except.ok.inj h
          exact ⟨congrArg Json.number (Numeral.toInt?_eq_some_iff.mp hspells), hbelow⟩
        · cases h
      · cases h
    · cases h
  · rintro ⟨rfl, hbelow⟩
    have hint : (Numeral.ofInt n).toInt? = some (.ofNat n) := Numeral.toInt?_ofInt _
    rw [readBelow, hint]
    exact if_pos hbelow

theorem readBelow_nat {bound n : Nat} (h : n < bound) : readBelow bound (.nat n) = .ok n :=
  readBelow_eq_ok_iff.mpr ⟨rfl, h⟩

theorem readUInt32_word32 (n : UInt32) : readUInt32 (Job.word32 n) = .ok n := by
  rw [readUInt32, Job.word32, readBelow_nat n.toNat_lt]
  exact congrArg Except.ok UInt32.ofNat_toNat

theorem readUInt64_word64 (n : UInt64) : readUInt64 (Job.word64 n) = .ok n := by
  rw [readUInt64, Job.word64, readBelow_nat n.toNat_lt]
  exact congrArg Except.ok UInt64.ofNat_toNat

theorem readInt32_int {n : Int} (h : Int32.minValue.toInt ≤ n ∧ n ≤ Int32.maxValue.toInt) :
    readInt32 (.int n) = .ok n := by
  have hint : (Numeral.ofInt n).toInt? = some n := Numeral.toInt?_ofInt n
  rw [readInt32, hint]
  exact if_pos h

/-! ## Fields -/

namespace Field

variable {key : String} {read : Json → Reading α} {write : α → Json} {a : α}

theorem lossless_required (h : read (keep (write a)) = .ok a) :
    (required key read write).Lossless keep a := h

theorem lossless_defaulted {default : α} (h : read (keep (write a)) = .ok a) :
    (defaulted key read write default).Lossless keep a := h

theorem lossless_optional {value : Option α}
    (h : ∀ a, value = some a → keep (write a) ≠ .null ∧ read (keep (write a)) = .ok a) :
    (optional key read write).Lossless keep value := by
  cases value with
  | none => rfl
  | some a =>
    obtain ⟨hne, hread⟩ := h a rfl
    show readOption read (keep (write a)) = .ok (some a)
    unfold readOption
    split
    · next heq => exact absurd heq hne
    · rw [hread]
      rfl

end Field

/-- A record comes back if its fields do. -/
theorem Schema.read_write (hkeep : Preserves keep) {αs : List Type} (schema : Schema αs)
    (values : Values αs) (distinct : schema.keys.Nodup) (h : schema.Lossless keep values) :
    schema.read (keep (schema.write values)) = .ok values := by
  obtain ⟨found, hfound, hperm⟩ := hkeep.record (schema.members values)
    ((schema.members_keys_sublist values).nodup distinct)
  rw [Schema.write, hfound]
  exact schema.read_of_perm distinct h hperm

theorem readString_str (hkeep : Preserves keep) (s : String) :
    readString (keep (.str s)) = .ok s := by
  rw [hkeep.str]
  rfl

/-- An optional text comes back. -/
theorem lossless_text (hkeep : Preserves keep) (key : String) (value : Option String) :
    (Field.optional key readString .str).Lossless keep value :=
  Field.lossless_optional fun s _ => ⟨by rw [hkeep.str]; exact nofun, readString_str hkeep s⟩

theorem readUInt32_keep (hkeep : Preserves keep) (n : UInt32) :
    readUInt32 (keep (Job.word32 n)) = .ok n := by
  have hsame : keep (Job.word32 n) = Job.word32 n := hkeep.nat _
  rw [hsame, readUInt32_word32]

theorem readUInt64_keep (hkeep : Preserves keep) (n : UInt64) :
    readUInt64 (keep (Job.word64 n)) = .ok n := by
  have hsame : keep (Job.word64 n) = Job.word64 n := hkeep.nat _
  rw [hsame, readUInt64_word64]

/-- A number that may be absent comes back, and so does its absence. -/
theorem readOption_keep (hkeep : Preserves keep) (n : Option UInt64) :
    readOption readUInt64 (keep (writeOption Job.word64 n)) = .ok n := by
  cases n with
  | none =>
    have hsame : keep (writeOption Job.word64 none) = .null := hkeep.null
    rw [hsame]
    rfl
  | some n =>
    have hsame : keep (writeOption Job.word64 (some n)) = Job.word64 n := hkeep.nat _
    have hread : readOption readUInt64 (Job.word64 n) = (readUInt64 (Job.word64 n)).map some := rfl
    rw [hsame, hread, readUInt64_word64]
    rfl

end Json

open Json

variable {keep : Json → Json}

/-! ## Tables of texts -/

namespace Worker

theorem readEntries_eq (entries : List (String × String)) (t : Table String) :
    readEntries (entries.map fun e => (some e.1, .str e.2)) t =
      .ok (entries.foldl (fun t e => t.insert e.1 e.2) t) := by
  induction entries generalizing t with
  | nil => rfl
  | cons e entries ih => exact ih _

/-- A table of texts comes back. -/
theorem tableOfJson_toJson (hkeep : Preserves keep) (t : Table String) :
    tableOfJson (keep (tableToJson t)) = .ok t := by
  have hkeys : (t.toList.map fun e => (e.1, Json.str e.2)).map (·.1) = t.toList.map (·.1) := by
    rw [List.map_map]
    rfl
  obtain ⟨found, hfound, hperm⟩ := hkeep.record _ (hkeys ▸ t.keys_nodup)
  have hperm' : (t.toList.map fun e => (some e.1, Json.str e.2)).Perm found := by
    rw [List.map_map] at hperm
    simpa only [Function.comp_def, hkeep.str] using hperm.symm
  obtain ⟨entries, hentries, rfl⟩ := exists_map_of_perm hperm'
  show tableOfJson (keep (.record _)) = _
  rw [hfound, tableOfJson, readEntries_eq, Table.foldl_insert_perm hentries.symm]

end Worker

/-! ## Records -/

/-- A list of resources comes back. -/
theorem ResourceList.ofJson_toJson (hkeep : Preserves keep) (r : ResourceList) :
    ofJson (keep r.toJson) = .ok r := by
  have hread := Schema.read_write hkeep schema (r.cpu, r.memory, ()) (by decide)
    ⟨lossless_text hkeep _ _, lossless_text hkeep _ _, trivial⟩
  rw [ofJson, toJson, hread]
  rfl

/-- The resources of a worker come back. -/
theorem Resources.ofJson_toJson (hkeep : Preserves keep) (r : Resources) :
    ofJson (keep r.toJson) = .ok r := by
  have hread := Schema.read_write hkeep schema (r.requests, r.limits, ()) (by decide)
    ⟨Field.lossless_defaulted (ResourceList.ofJson_toJson hkeep _),
      Field.lossless_defaulted (ResourceList.ofJson_toJson hkeep _), trivial⟩
  rw [ofJson, toJson, hread]
  rfl

/-- The fields of what a job is to run. -/
def Job.Spec.values (s : Job.Spec) :
    Values [String, String, UInt32, String, UInt32, UInt64, Option UInt64, Resources] :=
  (s.workerImage, s.backendName, s.shots, s.circuits, s.maxRetries, s.timeoutSeconds,
    s.ttlSecondsAfterFinished, s.resources, ())

/-- **The spec of a job comes back.** -/
theorem Job.Spec.ofJson_toJson (hkeep : Preserves keep) (s : Job.Spec) :
    ofJson (keep s.toJson) = .ok s := by
  have hlossless : schema.Lossless keep s.values :=
    ⟨Field.lossless_required (readString_str hkeep _),
      Field.lossless_defaulted (readString_str hkeep _),
      Field.lossless_defaulted (readUInt32_keep hkeep _),
      Field.lossless_required (readString_str hkeep _),
      Field.lossless_defaulted (readUInt32_keep hkeep _),
      Field.lossless_defaulted (readUInt64_keep hkeep _),
      Field.lossless_defaulted (readOption_keep hkeep _),
      Field.lossless_defaulted (Resources.ofJson_toJson hkeep _), trivial⟩
  have hread : schema.read (keep s.toJson) = .ok s.values :=
    Schema.read_write hkeep _ _ (by decide) hlossless
  rw [ofJson, hread]
  rfl

/-- **What is launched comes back.** -/
theorem Worker.Spec.ofJson_toJson (hkeep : Preserves keep) (s : Worker.Spec) :
    ofJson (keep s.toJson) = .ok s := by
  have hlossless : schema.Lossless keep (s.image, s.env, s.labels, s.resources, ()) :=
    ⟨Field.lossless_required (readString_str hkeep _),
      Field.lossless_defaulted (tableOfJson_toJson hkeep _),
      Field.lossless_defaulted (tableOfJson_toJson hkeep _),
      Field.lossless_defaulted (Resources.ofJson_toJson hkeep _), trivial⟩
  have hread := Schema.read_write hkeep _ _ (by decide) hlossless
  rw [ofJson, toJson, hread]
  rfl

end JobOperator
