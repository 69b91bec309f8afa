import JobOperator.Proofs.Store.Change
import JobOperator.Proofs.Worker.Name

/-!
# What holds of a store

* `MemoryStore.Consistent`: records lie under their names, workers are named after
  attempts at their owners, and no worker is without its owner.
* `MemoryStore.Owned.change`, `MemoryStore.Consistent.change`: every call keeps this.
* `MemoryStore.Consistent.owner_of_name`: the name of a worker tells whose it is.

The store checks all of it but the names of workers. Whoever asks for a worker has to name
it after an attempt, and this is the only thing that is demanded of a caller.
-/

namespace JobOperator

/-- A worker that is in its place: under its name, named after an attempt at its owner,
which is there. -/
structure Worker.Placed (worker : Worker) (jobs : Table Job) (name : String) : Prop where
  named : worker.name = name
  attempt : ∃ k, name = Worker.nameFor worker.owner.name k
  owned : ∃ job, jobs.get? worker.owner.name = some job ∧ job.uid = worker.owner.uid

/-- What holds of a store whatever has been done to it. -/
structure MemoryStore.Consistent (m : MemoryStore) : Prop where
  /-- a job is stored under its name -/
  named : ∀ name job, m.jobs.get? name = some job → job.name = name
  placed : ∀ name worker, m.workers.get? name = some worker → worker.Placed m.jobs name

namespace MemoryStore

variable {m m' : MemoryStore} {call : StoreCall}

/-- Every job is stored under its name. -/
def Named (m : MemoryStore) : Prop := ∀ name job, m.jobs.get? name = some job → job.name = name

/-- Whoever calls, jobs stay under their names. -/
theorem Named.change (h : m.Named) (hc : m.Change call m') : m'.Named := by
  intro n j hj
  cases hc with
  | nothing | launched | reported | lost => exact h n j hj
  | submitted job free =>
    dsimp only at hj
    rw [Table.get?_insert] at hj
    split at hj
    · next hname =>
      obtain rfl := Option.some.inj hj
      exact hname
    · exact h n j hj
  | @written job stored found version uid =>
    dsimp only at hj
    rw [Table.get?_insert] at hj
    split at hj
    · next hname =>
      obtain rfl := Option.some.inj hj
      exact (h _ _ found).trans hname
    · exact h n j hj
  | withdrawn =>
    dsimp only at hj
    rw [Table.get?_erase] at hj
    split at hj
    · cases hj
    · exact h n j hj

/-- No worker is without its owner. -/
def Owned (m : MemoryStore) : Prop :=
  ∀ name worker, m.workers.get? name = some worker →
    ∃ job, m.jobs.get? worker.owner.name = some job ∧ job.uid = worker.owner.uid

/-- Whoever calls, no worker loses its owner. -/
theorem Owned.change (h : m.Owned) (hc : m.Change call m') : m'.Owned := by
  intro n w hw
  cases hc with
  | nothing => exact h n w hw
  | submitted job free =>
    obtain ⟨owner, howner, huid⟩ := h n w hw
    refine ⟨owner, ?_, huid⟩
    dsimp only
    rw [Table.get?_insert, if_neg, howner]
    rintro heq
    rw [heq, howner] at free
    cases free
  | @written job stored found =>
    obtain ⟨owner, howner, huid⟩ := h n w hw
    dsimp only
    rw [Table.get?_insert]
    by_cases heq : job.name = w.owner.name
    · rw [if_pos heq]
      rw [← heq, found] at howner
      obtain rfl := Option.some.inj howner
      exact ⟨_, rfl, huid⟩
    · rw [if_neg heq]
      exact ⟨owner, howner, huid⟩
  | @withdrawn gone job found =>
    obtain ⟨hold, hkeep⟩ := get?_of_filter hw
    obtain ⟨owner, howner, huid⟩ := h n w hold
    refine ⟨owner, ?_, huid⟩
    dsimp only
    rw [Table.get?_erase, if_neg, howner]
    -- a worker of the job that goes would have gone with it
    rintro rfl
    rw [found] at howner
    obtain rfl := Option.some.inj howner
    simp [huid] at hkeep
  | @launched launch clock owner found uid free =>
    dsimp only at hw
    rw [Table.get?_insert] at hw
    split at hw
    · obtain rfl := Option.some.inj hw
      exact ⟨owner, found, uid⟩
    · exact h n w hw
  | @reported worker phase record found =>
    dsimp only at hw
    rw [Table.get?_insert] at hw
    split at hw
    · obtain rfl := Option.some.inj hw
      exact h worker record found
    · exact h n w hw
  | lost worker found =>
    dsimp only at hw
    rw [Table.get?_erase] at hw
    split at hw
    · cases hw
    · exact h n w hw

namespace Consistent

theorem empty : MemoryStore.Consistent {} where
  named := fun name job h => by rw [Table.get?_empty] at h; cases h
  placed := fun name worker h => by rw [Table.get?_empty] at h; cases h

/-- A worker whose name is that of an attempt at a job belongs to this job. -/
theorem owner_of_name (h : m.Consistent) {name : String} {k : UInt32} {worker : Worker}
    (hw : m.workers.get? (Worker.nameFor name k) = some worker) : worker.owner.name = name := by
  obtain ⟨k', hk'⟩ := (h.placed _ _ hw).attempt
  exact (Worker.nameFor_inj hk').1.symm

theorem owned (h : m.Consistent) : m.Owned := fun name worker hw => (h.placed name worker hw).owned

/-- A call keeps a store consistent, if workers are only asked for as attempts. -/
theorem change (h : m.Consistent) (hc : m.Change call m')
    (hlaunch : ∀ launch, call = .createWorker launch →
      ∃ k, launch.name = Worker.nameFor launch.owner.name k) : m'.Consistent := by
  have howned := h.owned.change hc
  have hplaced : ∀ name w, m.workers.get? name = some w → m'.workers.get? name = some w →
      w.Placed m'.jobs name := by
    intro name w hw hw'
    obtain ⟨hname, hattempt, -⟩ := h.placed name w hw
    exact ⟨hname, hattempt, howned name w hw'⟩
  refine ⟨Named.change h.named hc, fun name w hw => ?_⟩
  cases hc with
  | nothing | submitted | written => exact hplaced name w hw hw
  | withdrawn => exact hplaced name w (get?_of_filter hw).1 hw
  | @launched launch clock owner found uid free =>
    have howned' := howned name w hw
    dsimp only at hw
    rw [Table.get?_insert] at hw
    split at hw
    · next hname =>
      obtain rfl := Option.some.inj hw
      obtain ⟨k, hk⟩ := hlaunch launch rfl
      exact ⟨hname, ⟨k, hname.symm.trans hk⟩, howned'⟩
    · exact h.placed name w hw
  | @reported worker phase record found =>
    dsimp only at hw
    rw [Table.get?_insert] at hw
    split at hw
    · next hname =>
      subst hname
      obtain rfl := Option.some.inj hw
      obtain ⟨hname, hattempt, howned⟩ := h.placed _ _ found
      exact ⟨hname, hattempt, howned⟩
    · exact h.placed name w hw
  | lost worker found =>
    dsimp only at hw
    rw [Table.get?_erase] at hw
    split at hw
    · cases hw
    · exact h.placed name w hw

end Consistent

end MemoryStore

end JobOperator
