import JobOperator.Proofs.Json.Codec
import JobOperator.Proofs.Json.Text
import JobOperator.Proofs.Time.Timestamp

/-!
# Records survive

A record is written as a text, and who reads the text has the record again.

* `Json.Schema.Plain`: what is written of every field is plain, so the text of the record is read as
  it was written. That is a matter of the schema alone, and found out by `simp`.
* `Job.ofJson_toJson`, `Worker.ofJson_toJson`: a record that was kept in a place that preserves what
  a document says is read back **as it was**. One lemma for each kind of value, and for a record
  only its fields are gone through.
* `Json.Survives`: what a value is written as is read as the value.
* `records_survive`: jobs, workers and the requests for them survive, **whatever they hold**, if
  their instants lie in the years that are written with four digits.
-/

namespace JobOperator

/-! ## Identifiers -/

namespace Uid

open Digits (hexDigit hexDigit? hexDigit?_hexDigit)

theorem mapM_hexDigit (ds : List (Fin 16)) : (ds.map hexDigit).mapM hexDigit? = some ds := by
  induction ds with
  | nil => rfl
  | cons d ds ih =>
    rw [List.map_cons, List.mapM_cons, hexDigit?_hexDigit, ih]
    rfl

theorem ofHex?_digits (u : Uid) : ofHex? (u.digits.toList.map hexDigit) = some u := by
  have hlength : u.digits.toList.length = 32 := u.digits.length_toList
  rw [ofHex?, mapM_hexDigit]
  exact dif_pos hlength

/-- Groups are found by their lengths. -/
theorem ofGroups?_groups {a b c d e : List Char} (ha : a.length = 8) (hb : b.length = 4)
    (hc : c.length = 4) (hd : d.length = 4) :
    ofGroups? (a ++ '-' :: (b ++ '-' :: (c ++ '-' :: (d ++ '-' :: e)))) =
      ofHex? (a ++ b ++ c ++ d ++ e) := by
  simp only [ofGroups?, List.take_left' ha, List.drop_left' ha, List.take_left' hb,
    List.drop_left' hb, List.take_left' hc, List.drop_left' hc, List.take_left' hd,
    List.drop_left' hd]

/-- **An identifier is read as it was written.** -/
theorem parse?_render (u : Uid) : parse? u.render = some u := by
  have hlength : (u.digits.toList.map hexDigit).length = 32 := by
    rw [List.length_map, Vector.length_toList]
  have hread := ofHex?_digits u
  rw [parse?, render]
  generalize u.digits.toList.map hexDigit = cs at *
  simp only [String.toList_ofList, List.append_assoc, List.cons_append]
  have htotal : (cs.take 8 ++ '-' :: ((cs.drop 8).take 4 ++ '-' :: ((cs.drop 12).take 4 ++
      '-' :: ((cs.drop 16).take 4 ++ '-' :: cs.drop 20)))).length = 36 := by
    simp [hlength]
  have hwhole : cs.take 8 ++ (cs.drop 8).take 4 ++ (cs.drop 12).take 4 ++ (cs.drop 16).take 4 ++
      cs.drop 20 = cs := by
    have hcut (n : Nat) : (cs.drop n).take 4 ++ cs.drop (n + 4) = cs.drop n := by
      rw [← List.drop_drop, List.take_append_drop]
    rw [List.append_assoc, hcut 16, List.append_assoc, hcut 12, List.append_assoc, hcut 8,
      List.take_append_drop]
  rw [if_neg (by omega), if_pos htotal, ofGroups?_groups (by simp [hlength]) (by simp [hlength])
    (by simp [hlength]) (by simp [hlength]), hwhole, hread]

end Uid

namespace Json

variable {keep : Json → Json} {α β : Type}

/-! ## Plain values -/

attribute [simp] Plain.null Plain.str

/-- What is written of a field is plain. -/
def Field.Plain (field : Field α) : Prop := ∀ a v, field.write a = some v → v.Plain

@[simp] theorem Field.plain_required {key : String} {read : Json → Reading α} {write : α → Json} :
    (required key read write).Plain ↔ ∀ a, (write a).Plain :=
  ⟨fun h a => h a _ rfl, fun h a _ hv => Option.some.inj hv ▸ h a⟩

@[simp] theorem Field.plain_defaulted {key : String} {read : Json → Reading α} {write : α → Json}
    {default : α} : (defaulted key read write default).Plain ↔ ∀ a, (write a).Plain :=
  ⟨fun h a => h a _ rfl, fun h a _ hv => Option.some.inj hv ▸ h a⟩

@[simp] theorem Field.plain_optional {key : String} {read : Json → Reading α} {write : α → Json} :
    (optional key read write).Plain ↔ ∀ a, (write a).Plain := by
  refine ⟨fun h a => h (some a) _ rfl, fun h a v hv => ?_⟩
  obtain ⟨a, -, rfl⟩ := Option.map_eq_some_iff.mp hv
  exact h a

/-- What is written of each field is plain. -/
def Schema.Plain : {αs : List Type} → Schema αs → Prop
  | _, .nil => True
  | _, .cons field rest => field.Plain ∧ rest.Plain

@[simp] theorem Schema.plain_nil : Schema.nil.Plain := trivial

@[simp] theorem Schema.plain_cons {αs : List Type} {field : Field α} {rest : Schema αs} :
    (rest.cons field).Plain ↔ field.Plain ∧ rest.Plain := Iff.rfl

/-- A record is plain if its fields are. -/
theorem Schema.plain_write {αs : List Type} (schema : Schema αs) (h : schema.Plain)
    (values : Values αs) : (schema.write values).Plain := by
  refine .record ?_
  induction schema with
  | nil => exact nofun
  | cons field rest ih =>
    obtain ⟨a, as⟩ := values
    obtain ⟨hfield, hrest⟩ := h
    rw [members]
    split
    · next v hwrite => exact List.forall_mem_cons.mpr ⟨hfield a v hwrite, ih hrest as⟩
    · exact ih hrest as

@[simp] theorem plain_word32 (n : UInt32) : (Job.word32 n).Plain := .int _

@[simp] theorem plain_word64 (n : UInt64) : (Job.word64 n).Plain := .int _

@[simp] theorem plain_writeOption (n : Option UInt64) : (writeOption Job.word64 n).Plain := by
  cases n with
  | none => exact .null
  | some n => exact plain_word64 n

end Json

open Json

@[simp] theorem Instant.plain_toJson (t : Instant) : t.toJson.Plain := .str _

@[simp] theorem Uid.plain_toJson (u : Uid) : u.toJson.Plain := .str _

@[simp] theorem Job.Phase.plain_toJson (p : Job.Phase) : p.toJson.Plain := .str _

@[simp] theorem Worker.Phase.plain_toJson (p : Worker.Phase) : p.toJson.Plain := .str _

@[simp] theorem Worker.plain_tableToJson (t : Table String) : (tableToJson t).Plain := by
  refine .record fun e he => ?_
  obtain ⟨entry, -, rfl⟩ := List.mem_map.mp he
  exact .str _

@[simp] theorem ResourceList.plain_toJson (r : ResourceList) : r.toJson.Plain :=
  schema.plain_write (by simp [schema]) _

@[simp] theorem Resources.plain_toJson (r : Resources) : r.toJson.Plain :=
  schema.plain_write (by simp [schema]) _

@[simp] theorem Job.Spec.plain_toJson (s : Job.Spec) : s.toJson.Plain :=
  schema.plain_write (by simp [schema]) _

@[simp] theorem Job.Status.plain_toJson (s : Job.Status) : s.toJson.Plain :=
  schema.plain_write (by simp [schema]) _

@[simp] theorem Job.plain_toJson (j : Job) : j.toJson.Plain :=
  schema.plain_write (by simp [schema]) _

@[simp] theorem Job.Submission.plain_toJson (s : Job.Submission) : s.toJson.Plain :=
  schema.plain_write (by simp [schema]) _

@[simp] theorem Worker.Spec.plain_toJson (s : Worker.Spec) : s.toJson.Plain :=
  schema.plain_write (by simp [schema]) _

@[simp] theorem Owner.plain_toJson (o : Owner) : o.toJson.Plain :=
  schema.plain_write (by simp [schema]) _

@[simp] theorem Worker.Launch.plain_toJson (l : Worker.Launch) : l.toJson.Plain :=
  schema.plain_write (by simp [schema]) _

@[simp] theorem Worker.plain_toJson (w : Worker) : w.toJson.Plain :=
  schema.plain_write (by simp [schema]) _

/-! ## Records -/

variable {keep : Json → Json}

/-- A value that is written as a string comes back if its reader understands the string. -/
theorem Json.readParsed_keep {α : Type} (hkeep : Preserves keep) {parse? : String → Option α}
    {s : String} {a : α} (h : parse? s = some a) : readParsed parse? (keep (.str s)) = .ok a := by
  rw [readParsed, readString_str hkeep]
  dsimp only [bind, Except.bind]
  rw [h]
  rfl

theorem Uid.ofJson_toJson (hkeep : Preserves keep) (u : Uid) : ofJson (keep u.toJson) = .ok u :=
  readParsed_keep hkeep (parse?_render u)

theorem Instant.ofJson_toJson (hkeep : Preserves keep) {t : Instant} (h : t.Dated) :
    ofJson (keep t.toJson) = .ok t :=
  readParsed_keep hkeep ((Timestamp.written_render h).parse h)

theorem Job.Phase.ofJson_toJson (hkeep : Preserves keep) (p : Job.Phase) :
    ofJson (keep p.toJson) = .ok p := by
  rw [toJson, hkeep.str]
  cases p <;> rfl

theorem Worker.Phase.ofJson_toJson (hkeep : Preserves keep) (p : Worker.Phase) :
    ofJson (keep p.toJson) = .ok p := by
  rw [toJson, hkeep.str]
  cases p <;> rfl

/-- An optional instant comes back. -/
theorem Instant.lossless_optional (hkeep : Preserves keep) (key : String) {t : Option Instant}
    (h : ∀ i, t = some i → i.Dated) : (Field.optional key ofJson toJson).Lossless keep t :=
  Field.lossless_optional fun i hi =>
    ⟨by rw [toJson, hkeep.str]; exact nofun, ofJson_toJson hkeep (h i hi)⟩

/-- The instants of a status lie in years that are written with four digits. -/
structure Job.Status.Dated (s : Job.Status) : Prop where
  startTime : ∀ t, s.startTime = some t → t.Dated
  completionTime : ∀ t, s.completionTime = some t → t.Dated

/-- The instants of a job lie in years that are written with four digits. -/
structure Job.Dated (j : Job) : Prop where
  createdAt : j.createdAt.Dated
  status : j.status.Dated

/-- The status of a job comes back, and what is absent stays absent. -/
theorem Job.Status.ofJson_toJson (hkeep : Preserves keep) {s : Job.Status} (h : s.Dated) :
    ofJson (keep s.toJson) = .ok s := by
  have hlossless : schema.Lossless keep (s.phase, s.retries, s.workerRef, s.startTime,
      s.completionTime, s.errorMessage, ()) :=
    ⟨Field.lossless_defaulted (Phase.ofJson_toJson hkeep _),
      Field.lossless_defaulted (readUInt32_keep hkeep _), lossless_text hkeep _ _,
      Instant.lossless_optional hkeep _ h.startTime,
      Instant.lossless_optional hkeep _ h.completionTime, lossless_text hkeep _ _, trivial⟩
  have hread := Schema.read_write hkeep _ _ (by decide) hlossless
  rw [ofJson, toJson, hread]
  rfl

/-- **A job comes back.** -/
theorem Job.ofJson_toJson (hkeep : Preserves keep) {j : Job} (h : j.Dated) :
    ofJson (keep j.toJson) = .ok j := by
  have hlossless : schema.Lossless keep (j.name, j.uid, j.resourceVersion, j.createdAt, j.spec,
      j.status, ()) :=
    ⟨Field.lossless_required (readString_str hkeep _),
      Field.lossless_required (Uid.ofJson_toJson hkeep _),
      Field.lossless_required (readUInt64_keep hkeep _),
      Field.lossless_required (Instant.ofJson_toJson hkeep h.createdAt),
      Field.lossless_required (Spec.ofJson_toJson hkeep _),
      Field.lossless_defaulted (Status.ofJson_toJson hkeep h.status), trivial⟩
  have hread := Schema.read_write hkeep _ _ (by decide) hlossless
  rw [ofJson, toJson, hread]
  rfl

/-- A request for a job comes back. -/
theorem Job.Submission.ofJson_toJson (hkeep : Preserves keep) (s : Job.Submission) :
    ofJson (keep s.toJson) = .ok s := by
  have hlossless : schema.Lossless keep (s.name, s.spec, ()) :=
    ⟨Field.lossless_required (readString_str hkeep _),
      Field.lossless_required (Spec.ofJson_toJson hkeep _), trivial⟩
  have hread := Schema.read_write hkeep _ _ (by decide) hlossless
  rw [ofJson, toJson, hread]
  rfl

theorem Owner.ofJson_toJson (hkeep : Preserves keep) (o : Owner) :
    ofJson (keep o.toJson) = .ok o := by
  have hlossless : schema.Lossless keep (o.name, o.uid, ()) :=
    ⟨Field.lossless_required (readString_str hkeep _),
      Field.lossless_required (Uid.ofJson_toJson hkeep _), trivial⟩
  have hread := Schema.read_write hkeep _ _ (by decide) hlossless
  rw [ofJson, toJson, hread]
  rfl

/-- A request for a worker comes back. -/
theorem Worker.Launch.ofJson_toJson (hkeep : Preserves keep) (l : Worker.Launch) :
    ofJson (keep l.toJson) = .ok l := by
  have hlossless : schema.Lossless keep (l.name, l.owner, l.spec, ()) :=
    ⟨Field.lossless_required (readString_str hkeep _),
      Field.lossless_required (Owner.ofJson_toJson hkeep _),
      Field.lossless_required (Spec.ofJson_toJson hkeep _), trivial⟩
  have hread := Schema.read_write hkeep _ _ (by decide) hlossless
  rw [ofJson, toJson, hread]
  rfl

/-- **A worker comes back.** -/
theorem Worker.ofJson_toJson (hkeep : Preserves keep) {w : Worker} (h : w.createdAt.Dated) :
    ofJson (keep w.toJson) = .ok w := by
  have hlossless : schema.Lossless keep (w.name, w.owner, w.spec, w.phase, w.createdAt, ()) :=
    ⟨Field.lossless_required (readString_str hkeep _),
      Field.lossless_required (Owner.ofJson_toJson hkeep _),
      Field.lossless_required (Spec.ofJson_toJson hkeep _),
      Field.lossless_required (Phase.ofJson_toJson hkeep _),
      Field.lossless_required (Instant.ofJson_toJson hkeep h), trivial⟩
  have hread := Schema.read_write hkeep _ _ (by decide) hlossless
  rw [ofJson, toJson, hread]
  rfl

/-! ## Texts -/

namespace Json

/-- What a value is written as is read as the value. -/
def Survives {α : Type} (read : Json → Reading α) (write : α → Json) (a : α) : Prop :=
  decode read (Utf8.encode (write a).render) = .ok a

theorem preserves_id : Preserves id where
  null := rfl
  str := fun _ => rfl
  nat := fun _ => rfl
  record := fun _ _ => ⟨_, rfl, .refl _⟩

/-- A text is read as the tree that it was written for, and the tree as the value. -/
theorem survives_of_read {α : Type} {read : Json → Reading α} {write : α → Json} {a : α}
    (hplain : (write a).Plain) (hread : read (id (write a)) = .ok a) : Survives read write a :=
  (decode_render hplain read).trans hread

end Json

/-- **Records survive**: whatever a job, a worker or a request for one of them holds, who reads what
is written has it again. Instants have to lie in years that are written with four digits. -/
theorem records_survive :
    (∀ j : Job, j.Dated → Survives Job.ofJson Job.toJson j) ∧
    (∀ s : Job.Spec, Survives Job.Spec.ofJson Job.Spec.toJson s) ∧
    (∀ s : Job.Status, s.Dated → Survives Job.Status.ofJson Job.Status.toJson s) ∧
    (∀ w : Worker, w.createdAt.Dated → Survives Worker.ofJson Worker.toJson w) ∧
    (∀ l : Worker.Launch, Survives Worker.Launch.ofJson Worker.Launch.toJson l) ∧
    (∀ s : Job.Submission, Survives Job.Submission.ofJson Job.Submission.toJson s) ∧
    (∀ t : Instant, t.Dated → Timestamp.Written t (Timestamp.render t)) ∧
    ∀ (t : Instant) (text : String), t.Dated → Timestamp.Written t text →
      Survives Instant.ofJson (fun _ => .str text) t := by
  refine ⟨fun j h => ?_, fun s => ?_, fun s h => ?_, fun w h => ?_, fun l => ?_, fun s => ?_,
    fun t => Timestamp.written_render, fun t text h hwritten => ?_⟩
  · exact survives_of_read j.plain_toJson (Job.ofJson_toJson preserves_id h)
  · exact survives_of_read s.plain_toJson (Job.Spec.ofJson_toJson preserves_id s)
  · exact survives_of_read s.plain_toJson (Job.Status.ofJson_toJson preserves_id h)
  · exact survives_of_read w.plain_toJson (Worker.ofJson_toJson preserves_id h)
  · exact survives_of_read l.plain_toJson (Worker.Launch.ofJson_toJson preserves_id l)
  · exact survives_of_read s.plain_toJson (Job.Submission.ofJson_toJson preserves_id s)
  · exact survives_of_read (.str text) (readParsed_keep preserves_id (hwritten.parse h))

/-- A job that was submitted within a leap second and is kept for good, with a name that has to be
escaped. -/
def leapJob : Job where
  name := "b\u00e9ll \"\\\n\u0001"
  uid := .ofNat 1
  resourceVersion := 18446744073709551615
  createdAt := ⟨1483228799, 1500000000, by decide, by decide⟩
  spec := { workerImage := "aer:0.15", circuits := "", ttlSecondsAfterFinished := none }
  status := { phase := .pending, startTime := some (.ofNanos 1709208000123456789) }

/-- So does a job of a leap second, and its time to live stays absent. -/
theorem records_survive_leap : leapJob.Dated ∧ Survives Job.ofJson Job.toJson leapJob := by
  have hcreated : leapJob.createdAt.Dated := ⟨by decide, by decide⟩
  have hdated : leapJob.Dated := by
    refine ⟨hcreated, fun t ht => ?_, nofun⟩
    obtain rfl := Option.some.inj ht
    exact ⟨by decide, by decide⟩
  exact ⟨hdated, records_survive.1 leapJob hdated⟩

end JobOperator
