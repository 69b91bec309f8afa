/-!
# Tables

Finite maps whose keys are texts, kept as a list in the order of the keys. The
order of texts is that of their code points, which is also the order of their
UTF-8 bytes. Two tables with the same entries are equal.

* `Table`: the maps.
* `Table.get?`, `Table.insert`, `Table.erase`, `Table.filter`: the operations;
  `Table.toList` is the view of the whole.
* `Table.ext`: a table is determined by what it answers.
-/

namespace JobOperator

/-- A finite map from texts. -/
structure Table (α : Type) where
  /-- the entries, in the order of their keys -/
  toList : List (String × α)
  /-- no key comes twice, and the keys ascend -/
  ascending : toList.Pairwise fun a b => a.1 < b.1

namespace Table

variable {α : Type}

instance [Repr α] : Repr (Table α) := ⟨fun t => reprPrec t.toList⟩

instance [DecidableEq α] : DecidableEq (Table α) := fun s t =>
  if h : s.toList = t.toList then
    isTrue (by cases s; cases t; simp only at h; subst h; rfl)
  else isFalse fun e => h (congrArg toList e)

/-- The table without entries. -/
def empty : Table α := ⟨[], .nil⟩

instance : EmptyCollection (Table α) := ⟨empty⟩
instance : Inhabited (Table α) := ⟨empty⟩

/-! ## Operations on ascending lists -/

/-- The value of a key. -/
def lookup (key : String) : List (String × α) → Option α
  | [] => none
  | (k, a) :: rest => if k = key then some a else lookup key rest

/-- Puts an entry into its place, over one that has its key. -/
def put (key : String) (value : α) : List (String × α) → List (String × α)
  | [] => [(key, value)]
  | (k, a) :: rest =>
    if key < k then (key, value) :: (k, a) :: rest
    else if key = k then (key, value) :: rest
    else (k, a) :: put key value rest

theorem mem_put {key : String} {value : α} {entries : List (String × α)} {e : String × α}
    (h : e ∈ put key value entries) : e = (key, value) ∨ e ∈ entries := by
  induction entries with
  | nil => simpa [put] using h
  | cons head rest ih =>
    obtain ⟨k, a⟩ := head
    unfold put at h
    split at h
    · simpa using h
    · split at h
      · rcases List.mem_cons.1 h with rfl | h
        · exact .inl rfl
        · exact .inr (List.mem_cons_of_mem _ h)
      · rcases List.mem_cons.1 h with rfl | h
        · exact .inr (List.mem_cons_self ..)
        · exact (ih h).imp_right (List.mem_cons_of_mem _)

theorem put_ascending (key : String) (value : α) {entries : List (String × α)}
    (h : entries.Pairwise fun a b => a.1 < b.1) :
    (put key value entries).Pairwise fun a b => a.1 < b.1 := by
  induction entries with
  | nil => simp [put]
  | cons head rest ih =>
    obtain ⟨k, a⟩ := head
    obtain ⟨hhead, hrest⟩ := List.pairwise_cons.1 h
    unfold put
    split
    · rename_i hlt
      refine List.pairwise_cons.2 ⟨fun e he => ?_, h⟩
      rcases List.mem_cons.1 he with rfl | he
      · exact hlt
      · exact String.lt_trans hlt (hhead e he)
    · rename_i hnlt
      split
      · rename_i heq
        exact List.pairwise_cons.2 ⟨fun e he => by simpa [heq] using hhead e he, hrest⟩
      · rename_i hne
        refine List.pairwise_cons.2 ⟨fun e he => ?_, ih hrest⟩
        rcases mem_put he with rfl | he
        · rcases String.le_total k key with hle | hle
          · exact Decidable.byContradiction fun hkl =>
              hne (String.le_antisymm (String.not_lt.1 hkl) hle)
          · exact absurd (Decidable.byContradiction fun hlk =>
              hne (String.le_antisymm hle (String.not_lt.1 hlk))) hnlt
        · exact hhead e he

/-! ## Tables -/

/-- The value of a key. -/
def get? (t : Table α) (key : String) : Option α := lookup key t.toList

/-- The key has a value. -/
def contains (t : Table α) (key : String) : Bool := (t.get? key).isSome

/-- Gives a key a value. -/
def insert (t : Table α) (key : String) (value : α) : Table α :=
  ⟨put key value t.toList, put_ascending key value t.ascending⟩

/-- Keeps the entries with a property. -/
def filter (t : Table α) (keep : String → α → Bool) : Table α :=
  ⟨t.toList.filter fun e => keep e.1 e.2, t.ascending.filter _⟩

/-- Takes a key away. -/
def erase (t : Table α) (key : String) : Table α := t.filter fun k _ => k ≠ key

/-- The keys, ascending. -/
def keys (t : Table α) : List String := t.toList.map (·.1)

/-- The values, in the order of their keys. -/
def values (t : Table α) : List α := t.toList.map (·.2)

/-- The number of entries. -/
def size (t : Table α) : Nat := t.toList.length

/-- The table of a list of entries; of two entries with one key the later wins. -/
def ofList (entries : List (String × α)) : Table α :=
  entries.foldl (fun t e => t.insert e.1 e.2) ∅

/-! ## What an operation answers -/

@[simp] theorem get?_empty (key : String) : (∅ : Table α).get? key = none := rfl

theorem lookup_put (key key' : String) (value : α) (entries : List (String × α)) :
    lookup key' (put key value entries) =
      if key = key' then some value else lookup key' entries := by
  induction entries with
  | nil => simp [put, lookup]
  | cons head rest ih =>
    obtain ⟨k, a⟩ := head
    unfold put
    split
    · simp [lookup]
    · split
      · rename_i heq
        subst heq
        by_cases h : key = key' <;> simp [lookup, h]
      · rename_i hne
        by_cases h : k = key'
        · subst h
          simp [lookup, hne]
        · simp [lookup, h, ih]

theorem get?_insert (t : Table α) (key key' : String) (value : α) :
    (t.insert key value).get? key' = if key = key' then some value else t.get? key' :=
  lookup_put ..

@[simp] theorem get?_insert_self (t : Table α) (key : String) (value : α) :
    (t.insert key value).get? key = some value := by simp [get?_insert]

theorem lookup_eq_none {key : String} {entries : List (String × α)}
    (h : ∀ e ∈ entries, e.1 ≠ key) : lookup key entries = none := by
  induction entries with
  | nil => rfl
  | cons head rest ih =>
    obtain ⟨k, a⟩ := head
    have hk : k ≠ key := h (k, a) (List.mem_cons_self ..)
    simp [lookup, hk, ih fun e he => h e (List.mem_cons_of_mem _ he)]

theorem lookup_filter (keep : String → α → Bool) (key : String) {entries : List (String × α)}
    (h : entries.Pairwise fun a b => a.1 < b.1) :
    lookup key (entries.filter fun e => keep e.1 e.2) =
      (lookup key entries).filter (keep key) := by
  induction entries with
  | nil => rfl
  | cons head rest ih =>
    obtain ⟨k, a⟩ := head
    obtain ⟨hhead, hrest⟩ := List.pairwise_cons.1 h
    by_cases hk : k = key
    · subst hk
      have hnone : lookup k rest = none :=
        lookup_eq_none fun e he heq => String.lt_irrefl k (by simpa [heq] using hhead e he)
      by_cases hkeep : keep k a
      · simp [lookup, hkeep, Option.filter_some]
      · simp [lookup, hkeep, ih hrest, hnone, Option.filter_some]
    · by_cases hkeep : keep k a
      · simp [lookup, hkeep, hk, ih hrest]
      · simp [lookup, hkeep, hk, ih hrest]

theorem get?_filter (t : Table α) (keep : String → α → Bool) (key : String) :
    (t.filter keep).get? key = (t.get? key).filter (keep key) :=
  lookup_filter keep key t.ascending

theorem get?_erase (t : Table α) (key key' : String) :
    (t.erase key).get? key' = if key = key' then none else t.get? key' := by
  unfold erase
  rw [get?_filter]
  by_cases h : key = key'
  · subst h
    cases t.get? key <;> simp
  · have h' : ¬key' = key := fun e => h e.symm
    cases t.get? key' <;> simp [h, h']

theorem lookup_eq_some_iff {key : String} {value : α} {entries : List (String × α)}
    (h : entries.Pairwise fun a b => a.1 < b.1) :
    lookup key entries = some value ↔ (key, value) ∈ entries := by
  induction entries with
  | nil => simp [lookup]
  | cons head rest ih =>
    obtain ⟨k, a⟩ := head
    obtain ⟨hhead, hrest⟩ := List.pairwise_cons.1 h
    by_cases hk : k = key
    · subst hk
      have hnot : (k, value) ∉ rest := fun hm => String.lt_irrefl k (hhead _ hm)
      simp [lookup, hnot, eq_comm]
    · have hk' : ¬key = k := fun e => hk e.symm
      simp [lookup, hk, hk', ih hrest]

/-- The entries of a table are what it answers. -/
theorem mem_toList_iff {t : Table α} {key : String} {value : α} :
    (key, value) ∈ t.toList ↔ t.get? key = some value :=
  (lookup_eq_some_iff t.ascending).symm

/-- Tables that answer alike are equal: the order of the keys leaves no choice in
how the entries are kept. -/
theorem ext {s t : Table α} (h : ∀ key, s.get? key = t.get? key) : s = t := by
  have nodup (u : Table α) : u.toList.Nodup :=
    List.nodup_iff_pairwise_ne.2 (u.ascending.imp fun {a b} (hlt : a.1 < b.1) (heq : a = b) =>
      String.lt_irrefl b.1 (heq ▸ hlt))
  have perm : s.toList.Perm t.toList :=
    (List.perm_ext_iff_of_nodup (nodup s) (nodup t)).2 fun ⟨key, value⟩ => by
      rw [mem_toList_iff, mem_toList_iff, h]
  have same : s.toList = t.toList :=
    List.Perm.eq_of_pairwise
      (fun _ _ _ _ hab hba => absurd hba (String.lt_asymm hab)) s.ascending t.ascending perm
  cases s; cases t; simp only at same; subst same; rfl

end Table

end JobOperator
