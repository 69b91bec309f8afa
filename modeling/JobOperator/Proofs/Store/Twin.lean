import JobOperator.Proofs.Table
import JobOperator.Proofs.Visit.Independence

/-!
# Stores with two clocks

* `StoreCall.Agree`: when two answers to a call count as the same.
* `MemoryStore.Twin.answer`: **stores that differ only in the times at which workers were created
  answer alike**, and go on to differ in nothing else, whatever their clocks read.
-/

namespace JobOperator

/-! ## The same answer -/

/-- The same records, but for the order of a list and the times at which workers were created. -/
def StoreCall.Same : (call : StoreCall) → call.Value → call.Value → Prop
  | .createJob _, a, b | .getJob _, a, b | .updateStatus _, a, b => a = b
  | .listJobs, a, b => a.Perm b
  | .createWorker _, a, b | .getWorker _, a, b | .updateWorkerPhase .., a, b =>
    a.undated = b.undated
  | .listWorkers _, a, b => (a.map Worker.undated).Perm (b.map Worker.undated)
  | .deleteJob _, _, _ | .deleteWorker _, _, _ => True

/-- The same answer: the same records, or the same error. -/
def StoreCall.Agree (call : StoreCall) : call.Answer → call.Answer → Prop
  | .ok a, .ok b => call.Same a b
  | .error e, .error e' => e = e'
  | _, _ => False

namespace StoreCall

theorem Same.refl (call : StoreCall) (a : call.Value) : call.Same a a := by
  cases call with
  | createJob | getJob | updateStatus => exact Eq.refl a
  | listJobs | listWorkers => exact List.Perm.refl _
  | createWorker | getWorker | updateWorkerPhase => exact Eq.refl a.undated
  | deleteJob | deleteWorker => trivial

theorem Same.trans {call : StoreCall} {a b c : call.Value} (h : call.Same a b)
    (h' : call.Same b c) : call.Same a c := by
  cases call with
  | createJob | getJob | updateStatus => exact Eq.trans h h'
  | listJobs | listWorkers => exact List.Perm.trans h h'
  | createWorker | getWorker | updateWorkerPhase => exact Eq.trans h h'
  | deleteJob | deleteWorker => trivial

theorem Agree.refl (call : StoreCall) (a : call.Answer) : call.Agree a a := by
  cases a with
  | ok a => exact Same.refl call a
  | error e => exact Eq.refl e

theorem Agree.trans {call : StoreCall} {a b c : call.Answer} (h : call.Agree a b)
    (h' : call.Agree b c) : call.Agree a c := by
  match a, b, c, h, h' with
  | .ok _, .ok _, .ok _, h, h' => exact Same.trans h h'
  | .error _, .error _, .error _, h, h' => exact Eq.trans h h'

end StoreCall

/-! ## Two clocks -/

namespace MemoryStore.Twin

variable {m g : MemoryStore} {clock clock' : Instant} {n : String}

theorem contains (h : m.Twin g) (n : String) : m.workers.contains n = g.workers.contains n := by
  have hsome := congrArg Option.isSome (h.workers n)
  rwa [Option.isSome_map, Option.isSome_map] at hsome

theorem get?_insert {s t : Table Worker} {w w' : Worker}
    (h : ∀ k, (s.get? k).map Worker.undated = (t.get? k).map Worker.undated)
    (same : w.undated = w'.undated) (n k : String) :
    ((s.insert n w).get? k).map Worker.undated = ((t.insert n w').get? k).map Worker.undated := by
  rw [Table.get?_insert, Table.get?_insert]
  split
  · exact congrArg some same
  · exact h k

/-- Who is found in one store is found in the other one. -/
theorem worker_cases (h : m.Twin g) (n : String) :
    m.workers.get? n = none ∧ g.workers.get? n = none ∨
      ∃ w w', m.workers.get? n = some w ∧ g.workers.get? n = some w' ∧ w.undated = w'.undated := by
  have hn := h.workers n
  cases found : m.workers.get? n with
  | none =>
    rw [found] at hn
    exact .inl ⟨rfl, Option.map_eq_none_iff.mp hn.symm⟩
  | some w =>
    rw [found] at hn
    obtain ⟨w', found', same⟩ := Option.map_eq_some_iff.mp hn.symm
    exact .inr ⟨w, w', rfl, found', same.symm⟩

theorem listWorkers (h : m.Twin g) (owner : Option String) :
    (m.listWorkers owner).map Worker.undated = (g.listWorkers owner).map Worker.undated := by
  have hlist : ∀ m : MemoryStore, (m.listWorkers owner).map Worker.undated =
      (m.workers.values.map Worker.undated).filter
        fun w => owner.all fun name => w.owner.name = name := fun m => by
    rw [MemoryStore.listWorkers, List.filter_map]
    rfl
  rw [hlist, hlist, Table.map_values_eq h.workers]

theorem updateStatus (h : m.Twin g) (job : Job) :
    (m.updateStatus job).1 = (g.updateStatus job).1 := by
  rw [MemoryStore.updateStatus, MemoryStore.updateStatus, h.jobs]
  split
  · rfl
  · split
    · rfl
    · rfl

/-- **Nobody learns from an answer when a worker was created**, but from the time in its record. -/
theorem answer (h : m.Twin g) (clock clock' : Instant) (call : StoreCall) :
    call.Agree (m.answer clock call).1 (g.answer clock' call).1 ∧
      (m.answer clock call).2.Twin (g.answer clock' call).2 := by
  obtain ⟨jobs, workers⟩ := m
  obtain ⟨jobs', workers'⟩ := g
  obtain rfl : jobs = jobs' := h.jobs
  cases call with
  | getJob name => exact ⟨.refl _ _, h⟩
  | listJobs => exact ⟨List.Perm.refl _, h⟩
  | createJob job =>
    simp only [MemoryStore.answer, createJob]
    split
    · exact ⟨rfl, h⟩
    · exact ⟨rfl, rfl, h.workers⟩
  | updateStatus job =>
    simp only [MemoryStore.answer, MemoryStore.updateStatus]
    split
    · exact ⟨rfl, h⟩
    · split
      · exact ⟨rfl, rfl, h.workers⟩
      · exact ⟨rfl, h⟩
  | deleteJob name =>
    simp only [MemoryStore.answer, deleteJob]
    split
    · exact ⟨rfl, h⟩
    · refine ⟨trivial, rfl, fun n => ?_⟩
      dsimp only
      rw [Table.get?_filter, Table.get?_filter]
      exact Worker.filter_undated (h.workers n) fun _ => rfl
  | createWorker launch =>
    have hcontains : workers.contains launch.name = workers'.contains launch.name :=
      h.contains launch.name
    have hsame : (launch.toWorker clock).undated = (launch.toWorker clock').undated := rfl
    simp only [MemoryStore.answer, createWorker, hcontains]
    split
    · split
      · exact ⟨rfl, h⟩
      · exact ⟨hsame, rfl, get?_insert h.workers hsame launch.name⟩
    · exact ⟨rfl, h⟩
  | getWorker name =>
    refine ⟨?_, h⟩
    simp only [MemoryStore.answer, getWorker]
    obtain ⟨habsent, habsent'⟩ | ⟨w, w', found, found', same⟩ := h.worker_cases name
    · rw [habsent, habsent']
      rfl
    · rw [found, found']
      exact same
  | listWorkers owner => exact ⟨.of_eq (h.listWorkers owner), h⟩
  | updateWorkerPhase name phase =>
    simp only [MemoryStore.answer, updateWorkerPhase]
    obtain ⟨habsent, habsent'⟩ | ⟨w, w', found, found', same⟩ := h.worker_cases name
    · rw [habsent, habsent']
      exact ⟨rfl, h⟩
    · have hwritten : { w with phase }.undated = { w' with phase }.undated :=
        congrArg (fun w : Worker => { w with phase }) same
      rw [found, found']
      exact ⟨hwritten, rfl, get?_insert h.workers hwritten name⟩
  | deleteWorker name =>
    have hcontains : workers.contains name = workers'.contains name := h.contains name
    simp only [MemoryStore.answer, deleteWorker, hcontains]
    split
    · refine ⟨trivial, rfl, fun n => ?_⟩
      dsimp only
      rw [Table.get?_erase, Table.get?_erase]
      split
      · rfl
      · exact h.workers n
    · exact ⟨rfl, h⟩

end MemoryStore.Twin

end JobOperator
