import JobOperator.Json.Record

/-!
# What is written is read

* `Json.Schema.Lossless`: of the value of each field, what is written is read back, if it has
  passed through `keep` on its way; and a value that is not written is the one that a missing
  member stands for.
* `Json.Schema.read_of_perm`: then the record is read back from its members, **in whatever order
  they come**.

The proof follows the members as they are taken in. `Json.Schema.Met` is the invariant: of the
fields that have been met, the values are those that were written, and of the others there are
none.
-/

namespace JobOperator.Json

/-- What is written of the value of a field is read back. -/
def Field.Lossless {α : Type} (keep : Json → Json) (field : Field α) (a : α) : Prop :=
  match field.write a with
  | some value => field.read (keep value) = .ok a
  | none => field.absent = some a

namespace Schema

variable {αs : List Type} {schema : Schema αs} {values : Values αs} {row : Partial αs}
  {met met' : String → Prop} {key : String} {value : Json} {keep : Json → Json}

/-- The keys of the fields. -/
def keys : {αs : List Type} → Schema αs → List String
  | _, .nil => []
  | _, .cons field rest => field.key :: rest.keys

/-- What is written of the value of each field is read back. -/
def Lossless (keep : Json → Json) : {αs : List Type} → Schema αs → Values αs → Prop
  | _, .nil, _ => True
  | _, .cons field rest, (a, as) => field.Lossless keep a ∧ rest.Lossless keep as

/-- The fields whose keys have been met have their values, and the others have none. -/
def Met (met : String → Prop) : {αs : List Type} → Schema αs → Values αs → Partial αs → Prop
  | _, .nil, _, _ => True
  | _, .cons field rest, (a, as), (here, there) =>
    (met field.key → here = some a) ∧ (¬ met field.key → here = none) ∧ rest.Met met as there

/-- A member with this key and this value gives the field with the key its value. -/
def Reads (key : String) (value : Json) : {αs : List Type} → Schema αs → Values αs → Prop
  | _, .nil, _ => False
  | _, .cons field rest, (a, as) =>
    if field.key = key then field.read value = .ok a else rest.Reads key value as

/-- Who has not been met has the value that a missing member stands for. -/
def Fills (met : String → Prop) : {αs : List Type} → Schema αs → Values αs → Prop
  | _, .nil, _ => True
  | _, .cons field rest, (a, as) =>
    (¬ met field.key → field.absent = some a) ∧ rest.Fills met as

/-! ## Taking in members -/

theorem Met.congr (h : schema.Met met values row) (hsame : ∀ k ∈ schema.keys, met k ↔ met' k) :
    schema.Met met' values row := by
  induction schema with
  | nil => trivial
  | cons field rest ih =>
    obtain ⟨hthere, hnone, hrest⟩ := h
    have hfield := hsame field.key (List.mem_cons_self ..)
    exact ⟨fun hmet => hthere (hfield.mpr hmet),
      fun hnot => hnone fun hmet => hnot (hfield.mp hmet),
      ih hrest fun k hk => hsame k (List.mem_cons_of_mem _ hk)⟩

theorem met_blank (schema : Schema αs) (values : Values αs) :
    schema.Met (fun _ => False) values schema.blank := by
  induction schema with
  | nil => trivial
  | cons field rest ih => exact ⟨fun h => h.elim, fun _ => rfl, ih values.2⟩

theorem place_of_key {α : Type} {field : Field α} {rest : Schema αs} {there : Partial αs}
    (h : field.key = key) : (rest.cons field).place key value (none, there) =
      (field.read value).map fun a => some (some a, there) :=
  if_pos h

theorem place_of_other_key {α : Type} {field : Field α} {rest : Schema αs} {here : Option α}
    {there : Partial αs} (h : field.key ≠ key) : (rest.cons field).place key value (here, there) =
      (rest.place key value there).map (·.map (here, ·)) :=
  if_neg h

/-- One member is taken in. -/
theorem place_of_reads (distinct : schema.keys.Nodup) (hmet : schema.Met met values row)
    (hreads : schema.Reads key value values) (hnew : ¬ met key) :
    ∃ row', schema.place key value row = .ok (some row') ∧
      schema.Met (fun k => met k ∨ k = key) values row' := by
  induction schema with
  | nil => exact hreads.elim
  | cons field rest ih =>
    obtain ⟨a, as⟩ := values
    obtain ⟨here, there⟩ := row
    obtain ⟨hthere, hnone, hrest⟩ := hmet
    obtain ⟨hnot, hdistinct⟩ := List.nodup_cons.mp distinct
    by_cases hkey : field.key = key
    · subst hkey
      rw [Reads, if_pos rfl] at hreads
      rw [hnone hnew, place_of_key rfl, hreads]
      refine ⟨(some a, there), rfl, fun _ => rfl, fun h => absurd (.inr rfl) h, ?_⟩
      refine hrest.congr fun k hk => (or_iff_left ?_).symm
      rintro rfl
      exact hnot hk
    · rw [Reads, if_neg hkey] at hreads
      obtain ⟨there', hplace, hmet'⟩ := ih hdistinct hrest hreads
      rw [place_of_other_key hkey, hplace]
      refine ⟨(here, there'), rfl, fun h => hthere (h.resolve_right hkey), fun h => ?_, hmet'⟩
      exact hnone fun hmet => h (.inl hmet)

/-- All members are taken in. -/
theorem placeAll_of_reads (distinct : schema.keys.Nodup) {members : List (Option String × Json)}
    (hmet : schema.Met met values row)
    (hreads : ∀ e ∈ members, ∃ key, e.1 = some key ∧ schema.Reads key e.2 values ∧ ¬ met key)
    (hnodup : (members.map (·.1)).Nodup) :
    ∃ row', schema.placeAll members row = .ok row' ∧
      schema.Met (fun k => met k ∨ some k ∈ members.map (·.1)) values row' := by
  induction members generalizing row met with
  | nil => exact ⟨row, rfl, hmet.congr fun k _ => (or_iff_left List.not_mem_nil).symm⟩
  | cons e members ih =>
    obtain ⟨_, value⟩ := e
    obtain ⟨key, rfl, hread, hnew⟩ := hreads _ (List.mem_cons_self ..)
    obtain ⟨hnot, hnodup'⟩ := List.nodup_cons.mp hnodup
    obtain ⟨row₁, hplace, hmet₁⟩ := place_of_reads distinct hmet hread hnew
    obtain ⟨row₂, hplaceAll, hmet₂⟩ := ih hmet₁ (fun e he => by
      obtain ⟨key', hkey', hread', hnew'⟩ := hreads e (List.mem_cons_of_mem _ he)
      refine ⟨key', hkey', hread', fun h => h.elim hnew' ?_⟩
      rintro rfl
      exact hnot (List.mem_map.mpr ⟨e, he, hkey'⟩)) hnodup'
    refine ⟨row₂, ?_, hmet₂.congr fun k _ => ?_⟩
    · unfold placeAll
      rw [hplace]
      exact hplaceAll
    · rw [List.map_cons, List.mem_cons, Option.some_inj, or_assoc]

theorem complete_of_met (hmet : schema.Met met values row) (hfills : schema.Fills met values) :
    schema.complete row = .ok values := by
  induction schema with
  | nil => rfl
  | cons field rest ih =>
    obtain ⟨a, as⟩ := values
    obtain ⟨here, there⟩ := row
    obtain ⟨hthere, hnone, hrest⟩ := hmet
    obtain ⟨habsent, hfills'⟩ := hfills
    have hvalue : here.or field.absent = some a := by
      by_cases h : met field.key
      · rw [hthere h]
        rfl
      · rw [hnone h, habsent h]
        rfl
    rw [complete, hvalue, ih hrest hfills']
    rfl

/-! ## Reading what was written -/

theorem members_keys_sublist (schema : Schema αs) (values : Values αs) :
    ((schema.members values).map (·.1)).Sublist schema.keys := by
  induction schema with
  | nil => exact .slnil
  | cons field rest ih =>
    obtain ⟨a, as⟩ := values
    rw [members, keys]
    split
    · exact (ih as).cons_cons _
    · exact (ih as).cons _

/-- What is written is what the fields read. -/
theorem reads_of_mem (distinct : schema.keys.Nodup) (h : schema.Lossless keep values)
    (hmem : (key, value) ∈ schema.members values) : schema.Reads key (keep value) values := by
  induction schema with
  | nil => exact absurd hmem List.not_mem_nil
  | cons field rest ih =>
    obtain ⟨a, as⟩ := values
    obtain ⟨hfield, hrest⟩ := h
    obtain ⟨hnot, hdistinct⟩ := List.nodup_cons.mp distinct
    have hlater : (key, value) ∈ rest.members as →
        (rest.cons field).Reads key (keep value) (a, as) := by
      intro hmem
      have hkey : key ∈ rest.keys :=
        (members_keys_sublist rest as).subset (List.mem_map_of_mem hmem)
      have hne : field.key ≠ key := by
        rintro rfl
        exact hnot hkey
      rw [Reads, if_neg hne]
      exact ih hdistinct hrest hmem
    rw [members] at hmem
    rw [Field.Lossless] at hfield
    split at hmem
    · next v hwrite =>
      rw [hwrite] at hfield
      rcases List.mem_cons.mp hmem with heq | hmem
      · obtain ⟨rfl, rfl⟩ := Prod.mk.inj heq
        rw [Reads, if_pos rfl]
        exact hfield
      · exact hlater hmem
    · exact hlater hmem

/-- Who is not written has the value that a missing member stands for. -/
theorem fills_of_members (h : schema.Lossless keep values)
    (hmet : ∀ k ∈ (schema.members values).map (·.1), met k) : schema.Fills met values := by
  induction schema with
  | nil => trivial
  | cons field rest ih =>
    obtain ⟨a, as⟩ := values
    obtain ⟨hfield, hrest⟩ := h
    rw [Field.Lossless] at hfield
    rw [members] at hmet
    split at hfield
    · next v hwrite =>
      rw [hwrite] at hmet
      exact ⟨fun hnot => absurd (hmet _ (List.mem_cons_self ..)) hnot,
        ih hrest fun k hk => hmet k (List.mem_cons_of_mem _ hk)⟩
    · next hwrite =>
      rw [hwrite] at hmet
      exact ⟨fun _ => hfield, ih hrest hmet⟩

/-- **What is written is read**, in whatever order the members come. -/
theorem read_of_perm (distinct : schema.keys.Nodup) (h : schema.Lossless keep values)
    {found : List (Option String × Json)}
    (hperm : found.Perm ((schema.members values).map fun e => (some e.1, keep e.2))) :
    schema.read (.object found) = .ok values := by
  have hkeys : (found.map (·.1)).Perm (((schema.members values).map (·.1)).map some) := by
    have hmapped := hperm.map (·.1)
    rw [List.map_map] at hmapped
    rw [List.map_map]
    exact hmapped
  have hnodup : (found.map (·.1)).Nodup := by
    rw [hkeys.nodup_iff]
    refine List.Pairwise.map some (fun a b hne => hne ∘ Option.some.inj) ?_
    exact (members_keys_sublist schema values).nodup distinct
  obtain ⟨row, hplaced, hmet⟩ := placeAll_of_reads distinct (met_blank schema values)
    (fun e he => by
      obtain ⟨⟨key, value⟩, hmem, rfl⟩ := List.mem_map.mp (hperm.mem_iff.mp he)
      exact ⟨key, rfl, reads_of_mem distinct h hmem, id⟩) hnodup
  have hfills : schema.Fills (fun k => False ∨ some k ∈ found.map (·.1)) values :=
    fills_of_members h fun k hk => .inr (hkeys.mem_iff.mpr (List.mem_map_of_mem hk))
  show (schema.placeAll found schema.blank >>= schema.complete) = .ok values
  rw [hplaced]
  exact complete_of_met hmet hfills

end Schema

end JobOperator.Json
