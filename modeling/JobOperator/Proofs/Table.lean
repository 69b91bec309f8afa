import JobOperator.Table

/-!
# Tables and their entries

A table is kept in the order of its keys, and others may keep the same entries in another order.

* `exists_map_of_perm`: what is a list of images in another order is the image of a list.
* `Table.foldl_insert_perm`: the entries of a table may be put in again in any order.
* `Table.values_insert`, `Table.values_filter`: the values after a change, up to their order.
* `Table.mapped`: a table with images in the place of its values.
-/

namespace JobOperator

/-- What is in another order than a list of images is itself a list of images. -/
theorem exists_map_of_perm {α β : Type} {f : β → α} {l : List β} {images : List α}
    (h : (l.map f).Perm images) : ∃ l', l.Perm l' ∧ l'.map f = images := by
  generalize hl : l.map f = source at h
  induction h generalizing l with
  | nil => exact ⟨l, .refl _, hl⟩
  | cons a _ ih =>
    obtain ⟨b, rest, rfl, rfl, rfl⟩ := List.map_eq_cons_iff.mp hl
    obtain ⟨rest', hperm, rfl⟩ := ih rfl
    exact ⟨b :: rest', hperm.cons b, rfl⟩
  | swap a a' images =>
    obtain ⟨b, rest, rfl, rfl, hrest⟩ := List.map_eq_cons_iff.mp hl
    obtain ⟨b', rest, rfl, rfl, rfl⟩ := List.map_eq_cons_iff.mp hrest
    exact ⟨b' :: b :: rest, .swap b' b rest, rfl⟩
  | trans _ _ ih ih' =>
    obtain ⟨l', hperm, rfl⟩ := ih hl
    obtain ⟨l'', hperm', rfl⟩ := ih' rfl
    exact ⟨l'', hperm.trans hperm', rfl⟩

namespace Table

variable {α : Type} {t : Table α} {entries : List (String × α)} {key : String} {value : α}

/-- No key comes twice. -/
theorem keys_nodup (t : Table α) : (t.toList.map (·.1)).Nodup := by
  refine List.pairwise_map.mpr (t.ascending.imp fun {a b} hlt heq => ?_)
  rw [heq] at hlt
  exact String.lt_irrefl b.1 hlt

theorem toList_nodup (t : Table α) : t.toList.Nodup :=
  (List.pairwise_map.mp t.keys_nodup).imp fun hne heq => hne (congrArg Prod.fst heq)

/-- Who puts in entries with different keys finds them all. -/
theorem get?_foldl_insert (t : Table α) (distinct : (entries.map (·.1)).Nodup) :
    (entries.foldl (fun t e => t.insert e.1 e.2) t).get? key = some value ↔
      (key, value) ∈ entries ∨ key ∉ entries.map (·.1) ∧ t.get? key = some value := by
  induction entries generalizing t with
  | nil => simp
  | cons e entries ih =>
    obtain ⟨k, v⟩ := e
    obtain ⟨hnot, hdistinct⟩ := List.nodup_cons.mp distinct
    rw [List.foldl_cons, ih _ hdistinct, get?_insert, List.mem_cons, List.map_cons, List.mem_cons]
    by_cases hk : k = key
    · subst hk
      have hnone : (k, value) ∉ entries := fun hmem => hnot (List.mem_map.mpr ⟨_, hmem, rfl⟩)
      simp [hnone, hnot, eq_comm]
    · simp [hk, Ne.symm hk]

/-- The entries of a table may be put in again in any order. -/
theorem foldl_insert_perm (h : entries.Perm t.toList) :
    entries.foldl (fun t e => t.insert e.1 e.2) ∅ = t := by
  have hdistinct : (entries.map (·.1)).Nodup := by
    rw [(h.map _).nodup_iff]
    exact t.keys_nodup
  refine ext fun key => Option.ext fun value => ?_
  rw [get?_foldl_insert _ hdistinct, h.mem_iff, mem_toList_iff]
  simp

/-- The entries after one has been put in. -/
theorem toList_insert_perm (t : Table α) (key : String) (value : α) :
    (t.insert key value).toList.Perm ((key, value) :: (t.erase key).toList) := by
  refine (List.perm_ext_iff_of_nodup (toList_nodup _) ?_).mpr fun ⟨k, v⟩ => ?_
  · refine List.nodup_cons.mpr ⟨fun hmem => ?_, toList_nodup _⟩
    rw [mem_toList_iff, get?_erase, if_pos rfl] at hmem
    cases hmem
  · rw [List.mem_cons, mem_toList_iff, mem_toList_iff, get?_insert, get?_erase]
    by_cases hk : key = k
    · subst hk
      simp [eq_comm]
    · simp [hk, Ne.symm hk]

/-- The values after one has been put in. -/
theorem values_insert (t : Table α) (key : String) (value : α) :
    (t.insert key value).values.Perm (value :: (t.erase key).values) :=
  (t.toList_insert_perm key value).map Prod.snd

theorem erase_of_absent (absent : t.get? key = none) : t.erase key = t := by
  refine ext fun k => ?_
  rw [get?_erase]
  split
  · next hk => rw [← hk, absent]
  · rfl

/-- The values, one of which is this. -/
theorem values_of_get? (h : t.get? key = some value) :
    t.values.Perm (value :: (t.erase key).values) := by
  have hsame : t.insert key value = t := by
    refine ext fun k => ?_
    rw [get?_insert]
    split
    · next hk => rw [← hk, h]
    · rfl
  have hperm := t.values_insert key value
  rwa [hsame] at hperm

theorem mem_values_iff : value ∈ t.values ↔ ∃ key, t.get? key = some value := by
  simp [values, mem_toList_iff]

/-- The values that are kept, if it is a matter of the value what is kept. -/
theorem values_filter {keep : String → α → Bool} {keepValue : α → Bool}
    (h : ∀ key value, t.get? key = some value → keep key value = keepValue value) :
    (t.filter keep).values = t.values.filter keepValue := by
  have hkeep : ∀ e ∈ t.toList, keep e.1 e.2 = keepValue e.2 :=
    fun e he => h e.1 e.2 (mem_toList_iff.mp he)
  show (t.toList.filter fun e => keep e.1 e.2).map Prod.snd = _
  rw [List.filter_congr hkeep, values, List.filter_map]
  rfl

/-- A table in which every value is replaced by an image of it. -/
def mapped {β : Type} (f : α → β) (t : Table α) : Table β :=
  ⟨t.toList.map fun e => (e.1, f e.2), List.pairwise_map.mpr t.ascending⟩

theorem get?_mapped {β : Type} (f : α → β) (t : Table α) (key : String) :
    (t.mapped f).get? key = (t.get? key).map f := by
  show lookup key (t.toList.map fun e => (e.1, f e.2)) = (lookup key t.toList).map f
  induction t.toList with
  | nil => rfl
  | cons e entries ih =>
    rw [List.map_cons, lookup, lookup, ih]
    split <;> rfl

theorem values_mapped {β : Type} (f : α → β) (t : Table α) :
    (t.mapped f).values = t.values.map f := by
  rw [values, values, List.map_map]
  exact List.map_map

/-- Tables that have the same values at the same keys, as far as `f` tells, have the same values in
the same order, as far as `f` tells. -/
theorem map_values_eq {β : Type} {s t : Table α} {f : α → β}
    (h : ∀ key, (s.get? key).map f = (t.get? key).map f) : s.values.map f = t.values.map f := by
  have hmapped : s.mapped f = t.mapped f := ext fun key => by rw [get?_mapped, get?_mapped, h]
  rw [← values_mapped, ← values_mapped, hmapped]

end Table

end JobOperator
