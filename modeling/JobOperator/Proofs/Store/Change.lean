import JobOperator.Store.Memory

/-!
# What a call does to the store

* `MemoryStore.Change`: the six ways in which a call can change the store, each with
  what had to be the case; a call that meets none of them changes nothing.
* `MemoryStore.answer_change`: there are no others.

Whoever wants to know that something survives every call has these cases to look at,
and no definition of the store to open.
-/

namespace JobOperator.MemoryStore

/-- What a call can do to a store. -/
inductive Change (m : MemoryStore) : StoreCall → MemoryStore → Prop where
  /-- the call reads, or is refused -/
  | nothing (call : StoreCall) : Change m call m
  | submitted (job : Job) (free : m.jobs.get? job.name = none) :
      Change m (.createJob job)
        { m with jobs := m.jobs.insert job.name { job with resourceVersion := 1 } }
  | written (job : Job) {stored : Job} (found : m.jobs.get? job.name = some stored)
      (version : stored.resourceVersion = job.resourceVersion) (uid : stored.uid = job.uid) :
      Change m (.updateStatus job)
        { m with jobs := m.jobs.insert job.name { stored with
            status := job.status, resourceVersion := stored.resourceVersion + 1 } }
  /-- the workers of the job go with it -/
  | withdrawn (name : String) {job : Job} (found : m.jobs.get? name = some job) :
      Change m (.deleteJob name)
        { jobs := m.jobs.erase name
          workers := m.workers.filter fun _ w => w.owner.uid ≠ job.uid }
  | launched (launch : Worker.Launch) (clock : Instant) {owner : Job}
      (found : m.jobs.get? launch.owner.name = some owner) (uid : owner.uid = launch.owner.uid)
      (free : m.workers.get? launch.name = none) :
      Change m (.createWorker launch)
        { m with workers := m.workers.insert launch.name (launch.toWorker clock) }
  | reported (name : String) (phase : Worker.Phase) {worker : Worker}
      (found : m.workers.get? name = some worker) :
      Change m (.updateWorkerPhase name phase)
        { m with workers := m.workers.insert name { worker with phase } }
  | lost (name : String) {worker : Worker} (found : m.workers.get? name = some worker) :
      Change m (.deleteWorker name) { m with workers := m.workers.erase name }

/-- A key without a value has no entry. -/
theorem get?_eq_none_of_not_contains {α : Type} {t : Table α} {key : String}
    (h : ¬ t.contains key = true) : t.get? key = none := by
  unfold Table.contains at h
  simpa using h

/-- What is left of a table was in it, and was to be kept. -/
theorem get?_of_filter {α : Type} {t : Table α} {keep : String → α → Bool} {key : String} {a : α}
    (h : (t.filter keep).get? key = some a) : t.get? key = some a ∧ keep key a := by
  rw [Table.get?_filter] at h
  exact Option.filter_eq_some_iff.mp h

/-- A table that has a key still has it when an entry is put in. -/
theorem get?_insert_ne_none {α : Type} {t : Table α} {key key' : String} {value a : α}
    (h : t.get? key' = some a) : (t.insert key value).get? key' ≠ none := by
  rw [Table.get?_insert]
  split
  · exact nofun
  · rw [h]
    exact nofun

/-- Every call does one of these things. -/
theorem answer_change (m : MemoryStore) (clock : Instant) (call : StoreCall) :
    m.Change call (m.answer clock call).2 := by
  cases call with
  | getJob | listJobs | getWorker | listWorkers => exact .nothing _
  | createJob job =>
    unfold answer createJob
    dsimp only
    split
    · exact .nothing _
    · next hfree => exact .submitted job (get?_eq_none_of_not_contains hfree)
  | updateStatus job =>
    unfold answer updateStatus
    dsimp only
    split
    · exact .nothing _
    · next stored hfound =>
      split
      · next hcas => exact .written job hfound hcas.1 hcas.2
      · exact .nothing _
  | deleteJob name =>
    unfold answer deleteJob
    dsimp only
    split
    · exact .nothing _
    · next job hfound => exact .withdrawn name hfound
  | createWorker launch =>
    unfold answer createWorker
    dsimp only
    split
    · next halive =>
      obtain ⟨owner, hfound, huid⟩ := (Option.any_eq_true _ _).mp halive
      split
      · exact .nothing _
      · next hfree =>
        exact .launched launch clock hfound (by simpa using huid)
          (get?_eq_none_of_not_contains hfree)
    · exact .nothing _
  | updateWorkerPhase name phase =>
    unfold answer updateWorkerPhase
    dsimp only
    split
    · exact .nothing _
    · next worker hfound => exact .reported name phase hfound
  | deleteWorker name =>
    unfold answer deleteWorker
    dsimp only
    split
    · next hfound =>
      obtain ⟨worker, hworker⟩ := Option.isSome_iff_exists.mp hfound
      exact .lost name hworker
    · exact .nothing _

/-- Whoever is stored under a name before and after a call belongs to one owner. -/
theorem Change.owner_eq {m m' : MemoryStore} {call : StoreCall} (h : m.Change call m')
    {name : String} {worker worker' : Worker} (before : m.workers.get? name = some worker)
    (after : m'.workers.get? name = some worker') : worker'.owner = worker.owner := by
  have hkept : m.workers.get? name = some worker' → worker'.owner = worker.owner :=
    fun hsame => by rw [Option.some.inj (hsame.symm.trans before)]
  cases h with
  | nothing | submitted | written => exact hkept after
  | withdrawn => exact hkept (get?_of_filter after).1
  | lost =>
    rw [Table.get?_erase] at after
    split at after
    · cases after
    · exact hkept after
  | launched launch clock _ _ free =>
    rw [Table.get?_insert] at after
    split at after
    · next hname =>
      rw [hname, before] at free
      cases free
    · exact hkept after
  | reported n phase found =>
    rw [Table.get?_insert] at after
    split at after
    · next hname =>
      rw [hname, before] at found
      rw [← Option.some.inj after, Option.some.inj found]
    · exact hkept after

/-! ## What is answered -/

theorem getJob_eq_ok {m : MemoryStore} {name : String} {job : Job} :
    m.getJob name = .ok job ↔ m.jobs.get? name = some job := by
  unfold getJob
  cases m.jobs.get? name <;> simp

theorem getWorker_eq_ok {m : MemoryStore} {name : String} {worker : Worker} :
    m.getWorker name = .ok worker ↔ m.workers.get? name = some worker := by
  unfold getWorker
  cases m.workers.get? name <;> simp

/-- A listed worker is stored, and has the owner that was asked for. -/
theorem mem_listWorkers {m : MemoryStore} {owner : String} {worker : Worker}
    (h : worker ∈ m.listWorkers (some owner)) :
    worker.owner.name = owner ∧ ∃ name, m.workers.get? name = some worker := by
  obtain ⟨hmem, howner⟩ := List.mem_filter.mp h
  obtain ⟨⟨name, w⟩, hentry, rfl⟩ := List.mem_map.mp hmem
  exact ⟨by simpa using howner, name, Table.mem_toList_iff.mp hentry⟩

/-- A worker that has been created is the one that was asked for. -/
theorem createWorker_eq_ok {m : MemoryStore} {clock : Instant} {launch : Worker.Launch}
    {worker : Worker} (h : (m.createWorker clock launch).1 = .ok worker) :
    worker = launch.toWorker clock := by
  unfold createWorker at h
  split at h
  · split at h
    · cases h
    · exact (Except.ok.inj h).symm
  · cases h

/-- A status that was written is the one that was to be written. -/
theorem updateStatus_status {m : MemoryStore} {job written : Job}
    (h : (m.updateStatus job).1 = .ok written) : written.status = job.status := by
  unfold updateStatus at h
  split at h
  · cases h
  · split at h
    · rw [← Except.ok.inj h]
    · cases h

/-- The answer to a write is the record that is stored then. -/
theorem updateStatus_stored {m : MemoryStore} {job written : Job}
    (h : (m.updateStatus job).1 = .ok written) :
    (m.updateStatus job).2.jobs.get? job.name = some written ∧ written.status = job.status := by
  refine ⟨?_, updateStatus_status h⟩
  unfold updateStatus at h ⊢
  split at h
  · cases h
  · split at h
    · next hcas =>
      rw [if_pos hcas, ← Except.ok.inj h]
      exact Table.get?_insert_self ..
    · cases h

/-- A write that is refused changes nothing. Another writer came first, or there is no record. -/
theorem updateStatus_eq_error {m : MemoryStore} {job : Job} {e : StoreError}
    (h : (m.updateStatus job).1 = .error e) :
    (m.updateStatus job).2 = m ∧ (e.isConflict ∨ m.jobs.get? job.name = none) := by
  unfold updateStatus at h ⊢
  split at h
  · next habsent => exact ⟨rfl, .inr habsent⟩
  · split at h
    · cases h
    · next hcas =>
      rw [if_neg hcas]
      exact ⟨rfl, .inl (Except.error.inj h ▸ rfl)⟩

/-- There is only one reason why a deletion is refused. -/
theorem deleteWorker_eq_error {m : MemoryStore} {name : String} {e : StoreError}
    (h : (m.deleteWorker name).1 = .error e) : e.isNotFound := by
  unfold deleteWorker at h
  split at h
  · cases h
  · exact Except.error.inj h ▸ rfl

/-- A write against the stored version is answered with the new record. -/
theorem updateStatus_current {m : MemoryStore} {job stored : Job}
    (found : m.jobs.get? job.name = some stored)
    (version : stored.resourceVersion = job.resourceVersion) (uid : stored.uid = job.uid) :
    (m.updateStatus job).1 = .ok { stored with
      status := job.status, resourceVersion := stored.resourceVersion + 1 } := by
  unfold updateStatus
  rw [found]
  dsimp only
  rw [if_pos ⟨version, uid⟩]

/-- A worker that has been deleted is not there, and all jobs are as they were. -/
theorem deleteWorker_gone (m : MemoryStore) (name : String) :
    (m.deleteWorker name).2.jobs = m.jobs ∧ (m.deleteWorker name).2.workers.get? name = none := by
  unfold deleteWorker
  split
  · refine ⟨rfl, ?_⟩
    dsimp only
    rw [Table.get?_erase, if_pos rfl]
  · next hfree => exact ⟨rfl, get?_eq_none_of_not_contains hfree⟩

end JobOperator.MemoryStore
