import JobOperator.Proofs.Json.Codec

/-!
# What is read stands there

* `Json.Schema.Says`: the values that the members of an object give the fields of a record: of the
  member with its key, or in the absence of such a member the value that stands in for it.
* `Json.Schema.says_of_read`: **a record that is read is what the members say**, and nothing else.
* `Job.Spec.says_of_ofJson`, `Job.Submission.says_of_ofJson`: so it is with what a job is to run,
  and with the request for one.
* `Json.Literal`: nothing is read as a value but what is written for it.
  `Job.Spec.spelled_of_ofJson`: texts and numbers of what a job is to run are read as they stand.

The proof follows the members as they are taken in, with `Json.Schema.Holds` as its invariant.
-/

namespace JobOperator

/-- What is made of something that is read. -/
theorem Json.Reading.map_eq_ok {α β : Type} {reading : Json.Reading α} {make : α → β} {b : β} :
    reading.map make = .ok b ↔ ∃ a, reading = .ok a ∧ make a = b := by
  cases reading with
  | ok a => simp [Except.map]
  | error fault => simp [Except.map]

namespace Json.Schema

variable {αs : List Type} {schema : Schema αs} {values : Values αs} {row row' : Partial αs}
  {members seen seen' : List (Option String × Json)} {key : String} {value : Json}

/-- The values are those that the members give, and where there is none, those that stand in for a
missing one. -/
def Says (members : List (Option String × Json)) : {αs : List Type} → Schema αs → Values αs → Prop
  | _, .nil, _ => True
  | _, .cons field rest, (a, as) =>
    (∀ value, (some field.key, value) ∈ members → field.read value = .ok a) ∧
      ((∀ value, (some field.key, value) ∉ members) → field.absent = some a) ∧
      rest.Says members as

/-- The fields that the members give have their values, and the others have none. -/
def Holds (seen : List (Option String × Json)) : {αs : List Type} → Schema αs → Partial αs → Prop
  | _, .nil, _ => True
  | _, .cons field rest, (here, there) =>
    (∀ value, (some field.key, value) ∈ seen → ∃ a, here = some a ∧ field.read value = .ok a) ∧
      ((∀ value, (some field.key, value) ∉ seen) → here = none) ∧ rest.Holds seen there

theorem holds_blank (schema : Schema αs) : schema.Holds [] schema.blank := by
  induction schema with
  | nil => trivial
  | cons field rest ih => exact ⟨fun value h => absurd h List.not_mem_nil, fun _ => rfl, ih⟩

/-- Only the members with the keys of the fields matter. -/
theorem Holds.congr (h : schema.Holds seen row)
    (same : ∀ k ∈ schema.keys, ∀ value, (some k, value) ∈ seen' ↔ (some k, value) ∈ seen) :
    schema.Holds seen' row := by
  induction schema with
  | nil => trivial
  | cons field rest ih =>
    obtain ⟨hgiven, hnone, hrest⟩ := h
    have hfield := same field.key (List.mem_cons_self ..)
    exact ⟨fun value hv => hgiven value ((hfield value).mp hv),
      fun hnot => hnone fun value hv => hnot value ((hfield value).mpr hv),
      ih hrest fun k hk => same k (List.mem_cons_of_mem _ hk)⟩

/-- A member whose key no field has gives nothing. -/
theorem Holds.skip (h : schema.Holds seen row) (hkey : key ∉ schema.keys) :
    schema.Holds (seen ++ [(some key, value)]) row := by
  refine h.congr fun k hk v => ?_
  rw [List.mem_append, List.mem_singleton]
  refine or_iff_left fun heq => hkey ?_
  rwa [← Option.some.inj (Prod.mk.inj heq).1]

/-- A key that is skipped is that of no field. -/
theorem not_mem_keys_of_place (h : schema.place key value row = .ok none) : key ∉ schema.keys := by
  induction schema with
  | nil => exact List.not_mem_nil
  | cons field rest ih =>
    obtain ⟨here, there⟩ := row
    by_cases hkey : field.key = key
    · cases here with
      | some a => rw [place, if_pos hkey] at h; cases h
      | none =>
        rw [place_of_key hkey] at h
        obtain ⟨a, -, hnone⟩ := Reading.map_eq_ok.mp h
        cases hnone
    · rw [place_of_other_key hkey] at h
      obtain ⟨placed, hplace, hnone⟩ := Reading.map_eq_ok.mp h
      obtain rfl := Option.map_eq_none_iff.mp hnone
      exact List.not_mem_cons_of_ne_of_not_mem (Ne.symm hkey) (ih hplace)

/-- One member is taken in. -/
theorem Holds.place (distinct : schema.keys.Nodup) (h : schema.Holds seen row)
    (hplace : schema.place key value row = .ok (some row')) :
    schema.Holds (seen ++ [(some key, value)]) row' := by
  induction schema with
  | nil => cases hplace
  | cons field rest ih =>
    obtain ⟨here, there⟩ := row
    obtain ⟨hgiven, hnone, hrest⟩ := h
    obtain ⟨hnot, hdistinct⟩ := List.nodup_cons.mp distinct
    by_cases hkey : field.key = key
    · subst hkey
      cases here with
      | some a => rw [Schema.place, if_pos rfl] at hplace; cases hplace
      | none =>
        rw [place_of_key rfl] at hplace
        obtain ⟨a, hread, hrow⟩ := Reading.map_eq_ok.mp hplace
        obtain rfl := Option.some.inj hrow
        refine ⟨fun v hv => ?_, fun hnone => ?_, hrest.skip hnot⟩
        · rcases List.mem_append.mp hv with hv | hv
          · obtain ⟨_, hsome, -⟩ := hgiven v hv
            cases hsome
          · obtain rfl := (Prod.mk.inj (List.mem_singleton.mp hv)).2
            exact ⟨a, rfl, hread⟩
        · exact absurd (List.mem_append_right _ (List.mem_singleton_self _)) (hnone value)
    · rw [place_of_other_key hkey] at hplace
      obtain ⟨placed, hlater, hrow⟩ := Reading.map_eq_ok.mp hplace
      obtain ⟨there', rfl, rfl⟩ := Option.map_eq_some_iff.mp hrow
      have hsame : ∀ v, (some field.key, v) ∈ seen ++ [(some key, value)] ↔
          (some field.key, v) ∈ seen := by
        intro v
        rw [List.mem_append, List.mem_singleton]
        exact or_iff_left fun heq => hkey (Option.some.inj (Prod.mk.inj heq).1)
      exact ⟨fun v hv => hgiven v ((hsame v).mp hv),
        fun hnot => hnone fun v hv => hnot v ((hsame v).mpr hv), ih hdistinct hrest hlater⟩

/-- All members are taken in. -/
theorem Holds.placeAll (distinct : schema.keys.Nodup) (h : schema.Holds seen row)
    (hplace : schema.placeAll members row = .ok row') : schema.Holds (seen ++ members) row' := by
  induction members generalizing seen row with
  | nil =>
    obtain rfl := Except.ok.inj hplace
    rwa [List.append_nil]
  | cons e members ih =>
    obtain ⟨_ | key, value⟩ := e
    · cases hplace
    rw [List.append_cons]
    rw [Schema.placeAll] at hplace
    split at hplace
    · cases hplace
    · next placed hone => exact ih (h.place distinct hone) hplace
    · next hskipped =>
      split at hplace
      · exact ih (h.skip (not_mem_keys_of_place hskipped)) hplace
      · cases hplace

/-- The fields that have not been met are filled in. -/
theorem Holds.complete (h : schema.Holds members row)
    (hcomplete : schema.complete row = .ok values) : schema.Says members values := by
  induction schema with
  | nil => trivial
  | cons field rest ih =>
    obtain ⟨here, there⟩ := row
    obtain ⟨hgiven, hnone, hrest⟩ := h
    rw [Schema.complete] at hcomplete
    split at hcomplete
    · next a hvalue =>
      obtain ⟨as, hthere, rfl⟩ := Reading.map_eq_ok.mp hcomplete
      refine ⟨fun v hv => ?_, fun hnot => ?_, ih hrest hthere⟩
      · obtain ⟨b, hsome, hread⟩ := hgiven v hv
        rw [hsome] at hvalue
        obtain rfl := Option.some.inj hvalue
        exact hread
      · rw [hnone hnot] at hvalue
        exact hvalue
    · cases hcomplete

/-- **A record that is read is what the members say.** -/
theorem says_of_read (distinct : schema.keys.Nodup)
    (h : schema.read (.object members) = .ok values) : schema.Says members values := by
  have hread : (schema.placeAll members schema.blank >>= schema.complete) = .ok values := h
  cases hplace : schema.placeAll members schema.blank with
  | error fault => rw [hplace] at hread; cases hread
  | ok row =>
    rw [hplace] at hread
    exact ((holds_blank schema).placeAll distinct hplace).complete hread

end Json.Schema

/-- What a job is to run is what the members say, and where there is none, the default. -/
theorem Job.Spec.says_of_ofJson {members : List (Option String × Json)} {spec : Job.Spec}
    (h : ofJson (.object members) = .ok spec) : schema.Says members spec.values := by
  obtain ⟨values, hread, rfl⟩ := Json.Reading.map_eq_ok.mp h
  exact Json.Schema.says_of_read (by decide) hread

/-- A request for a job is what the members say. -/
theorem Job.Submission.says_of_ofJson {members : List (Option String × Json)} {s : Job.Submission}
    (h : ofJson (.object members) = .ok s) : schema.Says members (s.name, s.spec, ()) := by
  obtain ⟨values, hread, rfl⟩ := Json.Reading.map_eq_ok.mp h
  exact Json.Schema.says_of_read (by decide) hread

/-! ## Literally -/

namespace Json

/-- Nothing is read as a value but what is written for it. -/
def Literal {α : Type} (read : Json → Reading α) (write : α → Json) : Prop :=
  ∀ value a, read value = .ok a → value = write a

theorem literal_string : Literal readString .str := by
  intro value s h
  unfold readString at h
  split at h
  · rw [Except.ok.inj h]
  · cases h

theorem literal_uint32 : Literal readUInt32 Job.word32 := by
  intro value n h
  obtain ⟨k, hread, rfl⟩ := Reading.map_eq_ok.mp h
  obtain ⟨rfl, hbelow⟩ := readBelow_eq_ok_iff.mp hread
  rw [Job.word32, UInt32.toNat_ofNat_of_lt' hbelow]

theorem literal_uint64 : Literal readUInt64 Job.word64 := by
  intro value n h
  obtain ⟨k, hread, rfl⟩ := Reading.map_eq_ok.mp h
  obtain ⟨rfl, hbelow⟩ := readBelow_eq_ok_iff.mp hread
  rw [Job.word64, UInt64.toNat_ofNat_of_lt' hbelow]

theorem literal_option {α : Type} {read : Json → Reading α} {write : α → Json}
    (h : Literal read write) : Literal (readOption read) (writeOption write) := by
  intro value found hread
  unfold readOption at hread
  split at hread
  · obtain rfl := Except.ok.inj hread
    rfl
  · obtain ⟨a, hvalue, rfl⟩ := Reading.map_eq_ok.mp hread
    exact h value a hvalue

end Json

/-- The members of a spec stand there as they would be written, number for number and text for
text. -/
structure Job.Spec.Spelled (spec : Job.Spec) (members : List (Option String × Json)) : Prop where
  workerImage : ∀ value, (some "workerImage", value) ∈ members → value = .str spec.workerImage
  backendName : ∀ value, (some "backendName", value) ∈ members → value = .str spec.backendName
  shots : ∀ value, (some "shots", value) ∈ members → value = .nat spec.shots.toNat
  circuits : ∀ value, (some "circuits", value) ∈ members → value = .str spec.circuits
  maxRetries : ∀ value, (some "maxRetries", value) ∈ members → value = .nat spec.maxRetries.toNat
  timeoutSeconds : ∀ value, (some "timeoutSeconds", value) ∈ members →
    value = .nat spec.timeoutSeconds.toNat
  ttlSecondsAfterFinished : ∀ value, (some "ttlSecondsAfterFinished", value) ∈ members →
    value = (spec.ttlSecondsAfterFinished.elim .null fun ttl => .nat ttl.toNat)

/-- Texts and numbers of what a job is to run are read as they stand. -/
theorem Job.Spec.spelled_of_ofJson {members : List (Option String × Json)} {spec : Job.Spec}
    (h : ofJson (.object members) = .ok spec) : spec.Spelled members := by
  obtain ⟨himage, -, hbackend, -, hshots, -, hcircuits, -, hretries, -, htimeout, -, httl, -⟩ :=
    says_of_ofJson h
  refine ⟨fun value hm => Json.literal_string _ _ (himage value hm),
    fun value hm => Json.literal_string _ _ (hbackend value hm),
    fun value hm => Json.literal_uint32 _ _ (hshots value hm),
    fun value hm => Json.literal_string _ _ (hcircuits value hm),
    fun value hm => Json.literal_uint32 _ _ (hretries value hm),
    fun value hm => Json.literal_uint64 _ _ (htimeout value hm), fun value hm => ?_⟩
  rw [Json.literal_option Json.literal_uint64 _ _ (httl value hm)]
  cases spec.ttlSecondsAfterFinished <;> rfl

end JobOperator
