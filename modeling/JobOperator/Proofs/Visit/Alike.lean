import JobOperator.Proofs.Visit.Tidy

/-!
# Stores that cannot be told apart

How often a record was written, and when a worker was created, makes no difference to what an
invocation does.

* `MemoryStore.Alike`: the stores hold the same records but for these two things.
* `Reconciler.visited_alike`: calm visits of stores that are alike, at any two times of the
  store's clock, lead to stores that are alike.
-/

namespace JobOperator

/-- The job without the number of its writes. -/
def Job.unversioned (job : Job) : Job := { job with resourceVersion := 0 }

/-- The worker without the time of its creation. -/
def Worker.undated (worker : Worker) : Worker := { worker with createdAt := .ofSecond 0 }

/-- The stores hold the same records, but for versions of jobs and the times at which workers
were created. -/
structure MemoryStore.Alike (m m' : MemoryStore) : Prop where
  jobs : ∀ n, (m.jobs.get? n).map Job.unversioned = (m'.jobs.get? n).map Job.unversioned
  workers : ∀ n, (m.workers.get? n).map Worker.undated = (m'.workers.get? n).map Worker.undated

theorem Job.eq_of_unversioned {job job' : Job} (h : job.unversioned = job'.unversioned) :
    ∃ v, job' = { job with resourceVersion := v } := by
  refine ⟨job'.resourceVersion, ?_⟩
  calc job' = { job'.unversioned with resourceVersion := job'.resourceVersion } := rfl
    _ = { job.unversioned with resourceVersion := job'.resourceVersion } := by rw [h]

/-- Of workers that are alike the same are kept, if it does not matter when they were created. -/
theorem Worker.filter_undated {w w' : Option Worker}
    (h : w.map Worker.undated = w'.map Worker.undated) {keep : Worker → Bool}
    (hkeep : ∀ worker, keep worker.undated = keep worker) :
    (w.filter keep).map Worker.undated = (w'.filter keep).map Worker.undated := by
  have hcomp : keep ∘ Worker.undated = keep := funext hkeep
  have hfilter : ∀ w : Option Worker,
      (w.map Worker.undated).filter keep = (w.filter keep).map Worker.undated := fun w => by
    rw [Option.filter_map, hcomp]
  rw [← hfilter, ← hfilter, h]

theorem Worker.phase_of_undated {worker worker' : Worker} (h : worker.undated = worker'.undated) :
    worker'.phase = worker.phase := by
  have := congrArg Worker.phase h
  exact this.symm

namespace MemoryStore

variable {m m' m'' : MemoryStore} {job : Job}

namespace Alike

theorem refl (m : MemoryStore) : m.Alike m := ⟨fun _ => rfl, fun _ => rfl⟩

theorem symm (h : m.Alike m') : m'.Alike m :=
  ⟨fun n => (h.jobs n).symm, fun n => (h.workers n).symm⟩

theorem trans (h : m.Alike m') (h' : m'.Alike m'') : m.Alike m'' :=
  ⟨fun n => (h.jobs n).trans (h'.jobs n), fun n => (h.workers n).trans (h'.workers n)⟩

/-! ## Looking up -/

theorem job_found (h : m.Alike m') {n : String} (found : m.jobs.get? n = some job) :
    ∃ v, m'.jobs.get? n = some { job with resourceVersion := v } := by
  have hn := h.jobs n
  rw [found] at hn
  obtain ⟨job', hjob', heq⟩ := Option.map_eq_some_iff.mp hn.symm
  obtain ⟨v, rfl⟩ := Job.eq_of_unversioned heq.symm
  exact ⟨v, hjob'⟩

theorem job_absent (h : m.Alike m') {n : String} (absent : m.jobs.get? n = none) :
    m'.jobs.get? n = none := by
  have hn := h.jobs n
  rw [absent] at hn
  exact Option.map_eq_none_iff.mp hn.symm

theorem worker_found (h : m.Alike m') {n : String} {worker : Worker}
    (found : m.workers.get? n = some worker) :
    ∃ worker', m'.workers.get? n = some worker' ∧ worker'.phase = worker.phase := by
  have hn := h.workers n
  rw [found] at hn
  obtain ⟨worker', hworker', heq⟩ := Option.map_eq_some_iff.mp hn.symm
  exact ⟨worker', hworker', Worker.phase_of_undated heq.symm⟩

theorem worker_absent (h : m.Alike m') {n : String} (absent : m.workers.get? n = none) :
    m'.workers.get? n = none := by
  have hn := h.workers n
  rw [absent] at hn
  exact Option.map_eq_none_iff.mp hn.symm

theorem sight (h : m.Alike m') (v : UInt64) :
    m'.sight { job with resourceVersion := v } = m.sight job := by
  unfold MemoryStore.sight
  cases job.status.workerRef with
  | none => rfl
  | some n =>
    dsimp only
    cases hn : m.workers.get? n with
    | none => rw [h.worker_absent hn]
    | some worker =>
      obtain ⟨worker', hworker', hphase⟩ := h.worker_found hn
      rw [hworker']
      dsimp only
      rw [hphase]

/-! ## What is done to both -/

theorem without (h : m.Alike m') {gone gone' : List String} (hgone : ∀ n, n ∈ gone ↔ n ∈ gone') :
    (m.without gone).Alike (m'.without gone') := by
  refine ⟨h.jobs, fun n => ?_⟩
  rw [get?_without, get?_without]
  by_cases hn : n ∈ gone
  · rw [if_pos hn, if_pos ((hgone n).mp hn)]
  · rw [if_neg hn, if_neg fun hn' => hn ((hgone n).mpr hn')]
    exact h.workers n

theorem record (h : m.Alike m') (job : Job) (v : UInt64) (status : Job.Status) :
    (m.record job status).Alike (m'.record { job with resourceVersion := v } status) := by
  refine ⟨fun n => ?_, h.workers⟩
  unfold MemoryStore.record
  dsimp only
  rw [Table.get?_insert, Table.get?_insert]
  by_cases hn : job.name = n
  · rw [if_pos hn, if_pos hn]
    rfl
  · rw [if_neg hn, if_neg hn]
    exact h.jobs n

/-- To write what is there changes nothing. -/
theorem record_self (found : m.jobs.get? job.name = some job) :
    m.Alike (m.record job job.status) := by
  refine ⟨fun n => ?_, fun _ => rfl⟩
  unfold MemoryStore.record
  dsimp only
  rw [Table.get?_insert]
  split
  · next hn =>
    rw [← hn, found]
    rfl
  · rfl

theorem owns (h : m.Alike m') (launch : Worker.Launch) : m'.Owns launch ↔ m.Owns launch := by
  unfold Owns
  cases found : m.jobs.get? launch.owner.name with
  | none => rw [h.job_absent found]
  | some job =>
    obtain ⟨v, hv⟩ := h.job_found found
    rw [hv]
    rfl

theorem createWorker (h : m.Alike m') {launch : Worker.Launch} (owned : m.Owns launch)
    (clock clock' : Instant) :
    (m.createWorker clock launch).2.Alike (m'.createWorker clock' launch).2 := by
  have owned' := (h.owns launch).mpr owned
  cases hw : m.workers.get? launch.name with
  | none =>
    rw [createWorker_free owned hw, createWorker_free owned' (h.worker_absent hw)]
    refine ⟨h.jobs, fun n => ?_⟩
    dsimp only
    rw [Table.get?_insert, Table.get?_insert]
    split
    · rfl
    · exact h.workers n
  | some worker =>
    obtain ⟨worker', hw', -⟩ := h.worker_found hw
    rw [createWorker_taken owned (Option.isSome_of_eq_some hw),
      createWorker_taken owned' (Option.isSome_of_eq_some hw')]
    exact h

theorem deleteJob (h : m.Alike m') (name : String) :
    (m.deleteJob name).2.Alike (m'.deleteJob name).2 := by
  unfold MemoryStore.deleteJob
  cases found : m.jobs.get? name with
  | none =>
    rw [h.job_absent found]
    exact h
  | some job =>
    obtain ⟨v, hv⟩ := h.job_found found
    rw [hv]
    refine ⟨fun n => ?_, fun n => ?_⟩
    · dsimp only
      rw [Table.get?_erase, Table.get?_erase]
      split
      · rfl
      · exact h.jobs n
    · dsimp only
      rw [Table.get?_filter, Table.get?_filter]
      exact Worker.filter_undated (h.workers n) fun _ => rfl

/-! ## What a visit does to both -/

theorem supersededBy_iff (h : m.Alike m') (hm : m.Consistent) (hm' : m'.Consistent) (v : UInt64)
    (n : String) :
    n ∈ m.supersededBy job ↔ n ∈ m'.supersededBy { job with resourceVersion := v } := by
  rw [hm.mem_supersededBy_iff, hm'.mem_supersededBy_iff]
  constructor
  · rintro ⟨k, worker, hn, hw, hold⟩
    obtain ⟨worker', hw', -⟩ := h.worker_found hw
    exact ⟨k, worker', hn, hw', hold⟩
  · rintro ⟨k, worker, hn, hw, hold⟩
    obtain ⟨worker', hw', -⟩ := h.symm.worker_found hw
    exact ⟨k, worker', hn, hw', hold⟩

theorem workersOf_iff (h : m.Alike m') (hm : m.Consistent) (hm' : m'.Consistent) (name n : String) :
    n ∈ m.workersOf name ↔ n ∈ m'.workersOf name := by
  rw [hm.mem_workersOf_iff, hm'.mem_workersOf_iff]
  constructor
  · rintro ⟨k, worker, hn, hw⟩
    obtain ⟨worker', hw', -⟩ := h.worker_found hw
    exact ⟨k, worker', hn, hw'⟩
  · rintro ⟨k, worker, hn, hw⟩
    obtain ⟨worker', hw', -⟩ := h.symm.worker_found hw
    exact ⟨k, worker', hn, hw'⟩

theorem readied (h : m.Alike m') (hm : m.Consistent) (hm' : m'.Consistent) (job : Job) (v : UInt64)
    (now : Instant) :
    (m.readied job now).Alike (m'.readied { job with resourceVersion := v } now) := by
  have hsame : ({ job with resourceVersion := v } : Job).Waits now ↔ job.Waits now := Iff.rfl
  by_cases hwaits : job.Waits now
  · rw [readied_of_waits hwaits, readied_of_waits (hsame.mpr hwaits)]
    exact h.without fun n => h.supersededBy_iff hm hm' v n
  · rw [readied_of_not_waits hwaits, readied_of_not_waits (mt hsame.mp hwaits)]
    exact h

theorem wrappedUp (h : m.Alike m') (hm : m.Consistent) (hm' : m'.Consistent) (v : UInt64)
    (now : Instant) :
    (m.wrappedUp job now).Alike (m'.wrappedUp { job with resourceVersion := v } now) := by
  have hcleared := h.without fun n => h.workersOf_iff hm hm' job.name n
  have hsame : ({ job with resourceVersion := v } : Job).retention now = job.retention now := rfl
  by_cases hexpired : job.retention now = .expired
  · rw [wrappedUp_of_expired hexpired, wrappedUp_of_expired (hsame.trans hexpired)]
    exact hcleared.deleteJob job.name
  · rw [wrappedUp_of_kept hexpired, wrappedUp_of_kept (hsame ▸ hexpired)]
    exact hcleared

theorem updated (h : m.Alike m') (v : UInt64) (step : Step) :
    (m.updated job step none).Alike
      (m'.updated { job with resourceVersion := v } step none) := by
  unfold MemoryStore.updated
  split
  · exact h.record job v step.status
  · exact h

theorem relieved (h : m.Alike m') (effect : Effect) :
    (m.relieved effect).Alike (m'.relieved effect) := by
  cases effect with
  | delete name => exact h.without fun _ => Iff.rfl
  | create | none => exact h

end Alike

end MemoryStore

namespace Reconciler

variable {r : Reconciler} {m m' : MemoryStore} {job : Job} {name : String}

theorem supplied_alike (h : m.Alike m') (found : m.jobs.get? job.name = some job) (v : UInt64)
    (clock clock' : Instant) :
    (r.supplied clock m job).Alike (r.supplied clock' m' { job with resourceVersion := v }) :=
  h.createWorker (owns_of_found found) clock clock'

theorem carriedOut_alike (h : m.Alike m') (found : m.jobs.get? job.name = some job) (v : UInt64)
    (clock clock' : Instant) (step : Step) :
    (r.carriedOut clock m job step).Alike
      (r.carriedOut clock' m' { job with resourceVersion := v } step) := by
  by_cases heffect : step.effect = .create
  · rw [carriedOut_of_create heffect, carriedOut_of_create heffect]
    exact (supplied_alike h found v clock clock').record job v step.status
  · rw [carriedOut_of_ne_create heffect, carriedOut_of_ne_create heffect]
    exact (h.updated v step).relieved step.effect

/-- **Calm visits of stores that are alike** lead to stores that are alike, whatever the store's
clock reads. -/
theorem visited_alike (h : m.Alike m') (hm : m.Consistent) (hm' : m'.Consistent)
    (now clock clock' : Instant) (name : String) :
    (r.visited now clock m name).Alike (r.visited now clock' m' name) := by
  cases found : m.jobs.get? name with
  | none =>
    rw [visited_of_absent found, visited_of_absent (h.job_absent found)]
    exact h
  | some job =>
    obtain ⟨v, hv⟩ := h.job_found found
    rw [visited_of_found found, visited_of_found hv]
    have named := hm.named name job found
    subst named
    cases hterm : job.status.phase.terminal with
    | true =>
      have hterm' : ({ job with resourceVersion := v } : Job).status.phase.terminal := hterm
      rw [handled_of_terminal hterm, handled_of_terminal hterm']
      exact h.wrappedUp hm hm' v now
    | false =>
      have hterm' : ({ job with resourceVersion := v } : Job).status.phase.terminal = false := hterm
      rw [handled_of_alive hterm, handled_of_alive hterm']
      have hready := h.readied hm hm' job v now
      have hstep : r.stepIn now (m'.readied { job with resourceVersion := v } now)
          { job with resourceVersion := v } = r.stepIn now (m.readied job now) job := by
        unfold stepIn
        rw [hready.sight v]
        rfl
      rw [hstep]
      exact carriedOut_alike hready (MemoryStore.found_readied found now) v clock clock' _

end Reconciler

end JobOperator
