import JobOperator.Proofs.Store.Consistent

/-!
# Who is on the list

Workers are listed as values, without the names under which they are stored. As the store puts
every worker under its own name, nothing is lost by that.

* `MemoryStore.Filed`: every worker is stored under its name; no call changes this.
* `MemoryStore.Filed.mem_listWorkers`: hence a worker is on the list of all workers exactly if it
  is what is stored under its name, and **no two of them share a name**.
* `MemoryStore.Filed.listWorkers_ascending`: the list is in the order of the names.
* `MemoryStore.get?_updateWorkerPhase`: whose phase is written.
-/

namespace JobOperator.MemoryStore

variable {m m' : MemoryStore} {call : StoreCall} {worker other : Worker}

/-- Every worker is stored under its name. -/
def Filed (m : MemoryStore) : Prop :=
  ∀ name worker, m.workers.get? name = some worker → worker.name = name

theorem Consistent.filed (h : m.Consistent) : m.Filed :=
  fun name worker hw => (h.placed name worker hw).named

/-- Whoever calls, workers stay under their names. -/
theorem Filed.change (h : m.Filed) (hc : m.Change call m') : m'.Filed := by
  intro n w hw
  cases hc with
  | nothing | submitted | written => exact h n w hw
  | withdrawn => exact h n w (get?_of_filter hw).1
  | lost =>
    rw [Table.get?_erase] at hw
    split at hw
    · cases hw
    · exact h n w hw
  | launched =>
    rw [Table.get?_insert] at hw
    split at hw
    · next hname =>
      obtain rfl := Option.some.inj hw
      exact hname
    · exact h n w hw
  | reported name phase found =>
    rw [Table.get?_insert] at hw
    split at hw
    · next hname =>
      obtain rfl := Option.some.inj hw
      exact (h name _ found).trans hname
    · exact h n w hw

theorem listWorkers_none (m : MemoryStore) : m.listWorkers none = m.workers.values :=
  List.filter_eq_self.mpr fun _ _ => rfl

theorem mem_listWorkers_none : worker ∈ m.listWorkers none ↔
    ∃ name, m.workers.get? name = some worker := by
  simp [listWorkers, Table.values, Table.mem_toList_iff]

/-- Every worker is on the list, and nobody else. -/
theorem Filed.mem_listWorkers (h : m.Filed) :
    worker ∈ m.listWorkers none ↔ m.workers.get? worker.name = some worker := by
  rw [mem_listWorkers_none]
  constructor
  · rintro ⟨name, hw⟩
    rwa [h name worker hw]
  · exact fun hw => ⟨_, hw⟩

/-- Who is listed under the name of a worker is this worker. -/
theorem Filed.eq_of_listed (h : m.Filed) {name : String} (found : m.workers.get? name = some worker)
    (listed : other ∈ m.listWorkers none) (named : other.name = name) : other = worker := by
  rw [h.mem_listWorkers, named, found] at listed
  exact (Option.some.inj listed).symm

/-- The list is in the order of the names, and no name comes twice. -/
theorem Filed.listWorkers_ascending (h : m.Filed) :
    (m.listWorkers none).Pairwise fun a b => a.name < b.name := by
  have hnamed : ∀ e ∈ m.workers.toList, e.2.name = e.1 :=
    fun e he => h e.1 e.2 (Table.mem_toList_iff.mp he)
  refine List.Pairwise.filter _ (List.pairwise_map.mpr ?_)
  refine m.workers.ascending.imp_of_mem fun ha hb hlt => ?_
  rwa [hnamed _ ha, hnamed _ hb]

theorem jobs_updateWorkerPhase (m : MemoryStore) (name : String) (phase : Worker.Phase) :
    (m.updateWorkerPhase name phase).2.jobs = m.jobs := by
  rw [updateWorkerPhase]
  split <;> rfl

/-- The phase of one worker is written, and nothing else changes. -/
theorem get?_updateWorkerPhase (m : MemoryStore) (name : String) (phase : Worker.Phase)
    (n : String) : (m.updateWorkerPhase name phase).2.workers.get? n =
      if name = n then (m.workers.get? n).map ({ · with phase }) else m.workers.get? n := by
  rw [updateWorkerPhase]
  split
  · next habsent =>
    split
    · next hname => rw [← hname, habsent, Option.map_none]
    · rfl
  · next worker found =>
    dsimp only
    rw [Table.get?_insert]
    split
    · next hname => rw [← hname, found, Option.map_some]
    · rfl

end JobOperator.MemoryStore
