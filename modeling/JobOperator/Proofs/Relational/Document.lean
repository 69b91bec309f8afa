import JobOperator.Proofs.Json.Codec

/-!
# Documents in a column

A column of type `JSONB` does not keep the text of a document but what it says: the members of an
object come once each, in an order of their own, and a number is kept without an exponent.

* `Json.kept`: a document as such a column keeps it.
* `Json.storable`: what can be kept at all. A column holds no character of code zero.
* `Json.preserves_kept`: the members of a record are the same but for their order. Hence a spec
  comes back as it was.
* `Relational.JobTextual.storable`, `Relational.WorkerTextual.storable`: a spec can be kept if the
  texts in it can.
-/

namespace JobOperator

/-- A text that a column can hold. -/
def Relational.textual (s : String) : Bool := !s.toList.contains '\x00'

open Relational (textual)

/-- The numeral of the same number without an exponent. There is no negative zero, and what was
written of the fraction stays. -/
def Numeral.plain (n : Numeral) : Numeral :=
  let places := (-n.scale).toNat
  { negative := n.negative && n.digits ≠ 0
    whole := n.digits * Nat.pow 10 n.scale.toNat / Nat.pow 10 places
    fraction := (List.range places).map fun i => n.digits / Nat.pow 10 (places - 1 - i) % 10
    exponent := none }

theorem Numeral.plain_ofInt (n : Int) : (ofInt n).plain = ofInt n := by
  have hnegative : (decide (n < 0) && decide (n.natAbs ≠ 0)) = decide (n < 0) := by
    by_cases h : n < 0
    · have hne : n.natAbs ≠ 0 := by omega
      rw [decide_eq_true h, decide_eq_true hne, Bool.and_self]
    · rw [decide_eq_false h, Bool.false_and]
  have hwhole : n.natAbs * Nat.pow 10 0 / Nat.pow 10 0 = n.natAbs := by
    rw [Nat.pow, Nat.mul_one, Nat.div_one]
  show (⟨decide (n < 0) && decide (n.natAbs ≠ 0), n.natAbs * Nat.pow 10 0 / Nat.pow 10 0, [],
    none⟩ : Numeral) = ofInt n
  rw [hnegative, hwhole]
  rfl

namespace Json

/-- Of members with one key, the last. -/
def lastMembers : List (Option String × Json) → List (Option String × Json)
  | [] => []
  | e :: rest => if rest.any (·.1 = e.1) then lastMembers rest else e :: lastMembers rest

/-- The order in which members are kept: short keys come before long ones. -/
def memberLe (a b : Option String × Json) : Bool :=
  let s := a.1.getD ""
  let t := b.1.getD ""
  s.utf8ByteSize < t.utf8ByteSize || s.utf8ByteSize = t.utf8ByteSize && s ≤ t

mutual
/-- A document as a column keeps it. -/
def kept : Json → Json
  | .number n => .number n.plain
  | .array items => .array (keptItems items)
  | .object members => .object ((lastMembers (keptMembers members)).mergeSort memberLe)
  | value => value
/-- Items as a column keeps them. -/
def keptItems : List Json → List Json
  | [] => []
  | item :: items => kept item :: keptItems items
/-- Members as a column keeps them, in the order of the document. -/
def keptMembers : List (Option String × Json) → List (Option String × Json)
  | [] => []
  | (key, value) :: members => (key, kept value) :: keptMembers members
end

mutual
/-- A document that a column can hold. -/
def storable : Json → Bool
  | .string (some s) => textual s
  | .string none => false
  | .array items => itemsStorable items
  | .object members => membersStorable members
  | .broken => false
  | _ => true
/-- All items can be held. -/
def itemsStorable : List Json → Bool
  | [] => true
  | item :: items => storable item && itemsStorable items
/-- All members can be held. -/
def membersStorable : List (Option String × Json) → Bool
  | [] => true
  | (key, value) :: members => key.any textual && storable value && membersStorable members
end

/-! ## What is kept -/

theorem keptMembers_record (members : List (String × Json)) :
    keptMembers (members.map fun (key, value) => (some key, value)) =
      members.map fun e => (some e.1, kept e.2) := by
  induction members with
  | nil => rfl
  | cons e members ih => rw [List.map_cons, keptMembers, ih, List.map_cons]

theorem lastMembers_of_nodup {members : List (Option String × Json)}
    (h : (members.map (·.1)).Nodup) : lastMembers members = members := by
  induction members with
  | nil => rfl
  | cons e members ih =>
    obtain ⟨hnot, hnodup⟩ := List.nodup_cons.mp h
    rw [lastMembers, if_neg, ih hnodup]
    intro hany
    obtain ⟨e', hmem, hsame⟩ := List.any_eq_true.mp hany
    exact hnot (List.mem_map.mpr ⟨e', hmem, of_decide_eq_true hsame⟩)

/-- **A column keeps what a record says.** -/
theorem preserves_kept : Preserves kept where
  null := rfl
  str := fun _ => rfl
  nat := fun n => congrArg Json.number (Numeral.plain_ofInt n)
  record := by
    intro members hnodup
    refine ⟨_, rfl, ?_⟩
    rw [keptMembers_record]
    refine (List.mergeSort_perm _ _).trans (.of_eq (lastMembers_of_nodup ?_))
    rw [List.map_map]
    exact List.pairwise_map.mpr <| (List.pairwise_map.mp hnodup).imp fun hne heq =>
      hne (Option.some.inj heq)

/-! ## What can be held -/

theorem membersStorable_record (members : List (String × Json)) :
    membersStorable (members.map fun (key, value) => (some key, value)) =
      members.all fun e => textual e.1 && storable e.2 := by
  induction members with
  | nil => rfl
  | cons e members ih => rw [List.map_cons, membersStorable, ih, List.all_cons]; rfl

/-- What is written of each field can be held. -/
def Schema.Storable : {αs : List Type} → Schema αs → Values αs → Prop
  | _, .nil, _ => True
  | _, .cons field rest, (a, as) =>
    textual field.key ∧ (∀ value, field.write a = some value → storable value) ∧ rest.Storable as

/-- A record can be held if its fields can. -/
theorem Schema.storable_write {αs : List Type} (schema : Schema αs) (values : Values αs)
    (h : schema.Storable values) : storable (schema.write values) := by
  have hall : ((schema.members values).all fun e => textual e.1 && storable e.2) = true := by
    induction schema with
    | nil => rfl
    | cons field rest ih =>
      obtain ⟨a, as⟩ := values
      obtain ⟨hkey, hvalue, hrest⟩ := h
      rw [members]
      split
      · next value hwrite =>
        rw [List.all_cons, hkey, hvalue value hwrite, ih as hrest]
        rfl
      · exact ih as hrest
  exact (membersStorable_record _).trans hall

end Json

namespace Relational

open Json

/-- A text that may be absent can be held. -/
def Textual (s : Option String) : Prop := ∀ t, s = some t → textual t

/-- All texts in a list of resources can be held. -/
structure ResourcesTextual (r : ResourceList) : Prop where
  cpu : Textual r.cpu
  memory : Textual r.memory

/-- All names and values of a table can be held. -/
def TableTextual (t : Table String) : Prop :=
  ∀ key value, t.get? key = some value → textual key ∧ textual value

/-- All texts in the spec of a job can be held. -/
structure JobTextual (s : Job.Spec) : Prop where
  workerImage : textual s.workerImage
  backendName : textual s.backendName
  circuits : textual s.circuits
  requests : ResourcesTextual s.resources.requests
  limits : ResourcesTextual s.resources.limits

/-- All texts in what is launched can be held. -/
structure WorkerTextual (s : Worker.Spec) : Prop where
  image : textual s.image
  env : TableTextual s.env
  labels : TableTextual s.labels
  requests : ResourcesTextual s.resources.requests
  limits : ResourcesTextual s.resources.limits

/-- What is always written can be held if its value can. -/
theorem storable_of_written {value : Json} (h : storable value) :
    ∀ v, some value = some v → storable v := fun _ hv => Option.some.inj hv ▸ h

/-- An optional text can be held. -/
theorem Textual.storable {s : Option String} (h : Textual s) :
    ∀ v, s.map Json.str = some v → storable v := by
  intro v hv
  obtain ⟨t, ht, rfl⟩ := Option.map_eq_some_iff.mp hv
  exact h t ht

theorem storable_option (n : Option UInt64) : storable (writeOption Job.word64 n) := by
  cases n <;> rfl

theorem ResourcesTextual.storable {r : ResourceList} (h : ResourcesTextual r) :
    storable r.toJson :=
  Schema.storable_write ResourceList.schema (r.cpu, r.memory, ())
    ⟨rfl, h.cpu.storable, rfl, h.memory.storable, trivial⟩

theorem storable_resources {r : Resources} (requests : ResourcesTextual r.requests)
    (limits : ResourcesTextual r.limits) : storable r.toJson :=
  Schema.storable_write Resources.schema (r.requests, r.limits, ())
    ⟨rfl, storable_of_written requests.storable, rfl, storable_of_written limits.storable, trivial⟩

theorem TableTextual.storable {t : Table String} (h : TableTextual t) :
    storable (Worker.tableToJson t) := by
  refine (membersStorable_record _).trans (List.all_eq_true.mpr fun e he => ?_)
  obtain ⟨⟨key, value⟩, hmem, rfl⟩ := List.mem_map.mp he
  obtain ⟨hkey, hvalue⟩ := h key value (Table.mem_toList_iff.mp hmem)
  exact (Bool.and_eq_true _ _).mpr ⟨hkey, hvalue⟩

/-- **The spec of a job can be held**, if the texts in it can. -/
theorem JobTextual.storable {s : Job.Spec} (h : JobTextual s) : storable s.toJson :=
  Schema.storable_write Job.Spec.schema s.values
    ⟨rfl, storable_of_written h.workerImage, rfl, storable_of_written h.backendName,
      rfl, storable_of_written rfl, rfl, storable_of_written h.circuits,
      rfl, storable_of_written rfl, rfl, storable_of_written rfl,
      rfl, storable_of_written (storable_option _),
      rfl, storable_of_written (storable_resources h.requests h.limits), trivial⟩

/-- **What is launched can be held**, if the texts in it can. -/
theorem WorkerTextual.storable {s : Worker.Spec} (h : WorkerTextual s) : storable s.toJson :=
  Schema.storable_write Worker.Spec.schema (s.image, s.env, s.labels, s.resources, ())
    ⟨rfl, storable_of_written h.image, rfl, storable_of_written h.env.storable,
      rfl, storable_of_written h.labels.storable,
      rfl, storable_of_written (storable_resources h.requests h.limits), trivial⟩

end Relational

end JobOperator
