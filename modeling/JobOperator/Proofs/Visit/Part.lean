import JobOperator.Proofs.Visit.Alike

/-!
# The part of a store that belongs to a job

All jobs share one store, and their workers one space of names. Still, an invocation sees and
changes nothing but what belongs to its own job.

* `MemoryStore.part`: the record of a job, and the workers that it owns.
* `MemoryStore.Separable`: what has to hold of a store for this. Workers are named after their
  owners, jobs name their own workers only, and uids tell jobs apart.
* `Reconciler.part_visited`: what a visit makes of the part of its job is **a matter of this part
  alone**; and `Reconciler.part_visited_ne`: the parts of other jobs **stay as they are**.

The lemmas follow the steps of which a visit consists, each with these two halves.
-/

namespace JobOperator

namespace MemoryStore

/-- What belongs to the job of a name. -/
def part (m : MemoryStore) (name : String) : MemoryStore where
  jobs := m.jobs.filter fun n _ => n = name
  workers := m.workers.filter fun _ worker => worker.owner.name = name

/-- The jobs of a store do not get in each other's way. -/
structure Separable (m : MemoryStore) : Prop where
  consistent : m.Consistent
  lawful : ∀ name job, m.jobs.get? name = some job → job.Lawful
  /-- no two jobs have the same uid -/
  distinct : ∀ name name' job job', m.jobs.get? name = some job → m.jobs.get? name' = some job' →
    job'.uid = job.uid → name' = name

/-- All workers that are named after attempts at a job belong to it. -/
def OwnedByName (m : MemoryStore) (name : String) : Prop :=
  ∀ k worker, m.workers.get? (Worker.nameFor name k) = some worker → worker.owner.name = name

/-- All workers that the incarnation of a job owns name it. -/
def OwnedByUid (m : MemoryStore) (job : Job) : Prop :=
  ∀ n worker, m.workers.get? n = some worker → worker.owner.uid = job.uid →
    worker.owner.name = job.name

variable {m m' : MemoryStore} {job : Job} {name other : String}

theorem Separable.ownedByName (h : m.Separable) (name : String) : m.OwnedByName name :=
  fun _ _ hw => h.consistent.owner_of_name hw

theorem Separable.ownedByUid (h : m.Separable) (found : m.jobs.get? job.name = some job) :
    m.OwnedByUid job := by
  intro n worker hw huid
  obtain ⟨-, -, owner, howner, hsame⟩ := h.consistent.placed n worker hw
  exact h.distinct job.name worker.owner.name job owner found howner (hsame.trans huid)

/-! ## What is found in a part -/

theorem job_part (m : MemoryStore) (name n : String) :
    (m.part name).jobs.get? n = if n = name then m.jobs.get? n else none := by
  rw [part, Table.get?_filter]
  by_cases hn : n = name
  · rw [if_pos hn]
    cases m.jobs.get? n <;> simp [hn]
  · rw [if_neg hn]
    cases m.jobs.get? n <;> simp [hn]

theorem worker_part (m : MemoryStore) (name n : String) :
    (m.part name).workers.get? n =
      (m.workers.get? n).filter fun worker => worker.owner.name = name := by
  rw [part, Table.get?_filter]

theorem job_part_self (m : MemoryStore) (name : String) :
    (m.part name).jobs.get? name = m.jobs.get? name := by
  rw [job_part, if_pos rfl]

theorem worker_part_eq_some {n : String} {worker : Worker} :
    (m.part name).workers.get? n = some worker ↔
      m.workers.get? n = some worker ∧ worker.owner.name = name := by
  rw [worker_part, Option.filter_eq_some_iff, decide_eq_true_eq]

/-- The worker of an attempt is in the part of its job. -/
theorem OwnedByName.worker_part (h : m.OwnedByName name) (k : UInt32) :
    (m.part name).workers.get? (Worker.nameFor name k) =
      m.workers.get? (Worker.nameFor name k) := by
  cases hw : m.workers.get? (Worker.nameFor name k) with
  | none => rw [MemoryStore.worker_part, hw, Option.filter_none]
  | some worker => exact worker_part_eq_some.mpr ⟨hw, h k worker hw⟩

/-- Parts are equal that have the same record of the job and the same workers of it. -/
theorem part_eq_iff : m'.part name = m.part name ↔
    m'.jobs.get? name = m.jobs.get? name ∧ ∀ n worker, worker.owner.name = name →
      (m'.workers.get? n = some worker ↔ m.workers.get? n = some worker) := by
  constructor
  · intro h
    refine ⟨?_, fun n worker howner => ?_⟩
    · rw [← job_part_self m', h, job_part_self]
    · have hn : (m'.part name).workers.get? n = some worker ↔
          (m.part name).workers.get? n = some worker := by rw [h]
      rwa [worker_part_eq_some, worker_part_eq_some, and_iff_left howner,
        and_iff_left howner] at hn
  · rintro ⟨hjob, hworkers⟩
    refine eq_of_get? (Table.ext fun n => ?_) fun n => Option.ext fun worker => ?_
    · rw [job_part, job_part]
      split
      · next hn => rw [hn, hjob]
      · rfl
    · rw [worker_part_eq_some, worker_part_eq_some]
      constructor
      · rintro ⟨hw, howner⟩
        exact ⟨(hworkers n worker howner).mp hw, howner⟩
      · rintro ⟨hw, howner⟩
        exact ⟨(hworkers n worker howner).mpr hw, howner⟩

theorem listWorkers_part (m : MemoryStore) (name : String) :
    (m.part name).listWorkers (some name) = m.listWorkers (some name) := by
  simp only [listWorkers, part, Table.values, Table.filter, List.filter_map, List.filter_filter]
  simp [Function.comp_def]

theorem workersOf_part (m : MemoryStore) (name : String) :
    (m.part name).workersOf name = m.workersOf name := by
  rw [workersOf, listWorkers_part, workersOf]

theorem supersededBy_part (m : MemoryStore) (job : Job) :
    (m.part job.name).supersededBy job = m.supersededBy job := by
  rw [supersededBy, listWorkers_part, supersededBy]

/-- A job sees its own workers only. -/
theorem sight_part (h : m.OwnedByName job.name) (lawful : job.Lawful) :
    (m.part job.name).sight job = m.sight job := by
  rw [sight, sight]
  cases href : job.status.workerRef with
  | none => rfl
  | some worker =>
    have hn := h.worker_part job.status.retries
    obtain rfl := lawful.named worker href
    dsimp only
    rw [Worker.nameOf, hn]

/-! ## What is done to a part -/

theorem part_without (m : MemoryStore) (gone : List String) (name : String) :
    (m.without gone).part name = (m.part name).without gone := by
  refine eq_of_get? rfl fun n => ?_
  rw [worker_part, get?_without, get?_without, worker_part]
  split
  · exact Option.filter_none _
  · rfl

theorem part_without_ne {gone : List String}
    (h : ∀ n ∈ gone, ∀ worker, m.workers.get? n = some worker → worker.owner.name ≠ other) :
    (m.without gone).part other = m.part other := by
  refine part_eq_iff.mpr ⟨rfl, fun n worker howner => ?_⟩
  rw [get?_without]
  constructor
  · intro hw
    split at hw
    · cases hw
    · exact hw
  · intro hw
    rw [if_neg fun hn => h n hn worker hw howner]
    exact hw

theorem part_record (m : MemoryStore) (job : Job) (status : Job.Status) :
    (m.record job status).part job.name = (m.part job.name).record job status := by
  refine eq_of_get? (Table.ext fun n => ?_) fun n => rfl
  rw [job_part, record, record]
  dsimp only
  rw [Table.get?_insert, Table.get?_insert, job_part]
  by_cases hn : n = job.name
  · rw [if_pos hn, if_pos hn.symm, if_pos hn.symm]
  · rw [if_neg hn, if_neg (Ne.symm hn), if_neg hn]

theorem part_record_ne (hne : other ≠ job.name) (status : Job.Status) :
    (m.record job status).part other = m.part other := by
  refine part_eq_iff.mpr ⟨?_, fun _ _ _ => Iff.rfl⟩
  rw [record]
  exact (Table.get?_insert ..).trans (if_neg (Ne.symm hne))

/-- The workers that are swept away belong to the job. -/
theorem owner_of_supersededBy (h : m.Separable) {n : String} (hn : n ∈ m.supersededBy job)
    {worker : Worker} (hw : m.workers.get? n = some worker) : worker.owner.name = job.name := by
  obtain ⟨k, _, rfl, _, _⟩ := h.consistent.mem_supersededBy_iff.mp hn
  exact h.ownedByName job.name k worker hw

theorem part_readied (m : MemoryStore) (job : Job) (now : Instant) :
    (m.readied job now).part job.name = (m.part job.name).readied job now := by
  by_cases hwaits : job.Waits now
  · rw [readied_of_waits hwaits, readied_of_waits hwaits, part_without, supersededBy_part]
  · rw [readied_of_not_waits hwaits, readied_of_not_waits hwaits]

theorem part_readied_ne (h : m.Separable) (hne : other ≠ job.name) (now : Instant) :
    (m.readied job now).part other = m.part other := by
  by_cases hwaits : job.Waits now
  · rw [readied_of_waits hwaits]
    refine part_without_ne fun n hn worker hw howner => hne ?_
    rw [← howner, owner_of_supersededBy h hn hw]
  · rw [readied_of_not_waits hwaits]

/-- What is left after a sweep is still named after its owner. -/
theorem OwnedByName.readied (h : m.OwnedByName name) (job : Job) (now : Instant) :
    (m.readied job now).OwnedByName name :=
  fun k worker hw => h k worker (get?_of_readied hw)

theorem part_updated (m : MemoryStore) (job : Job) (step : Step) (created : Option String) :
    (m.updated job step created).part job.name = (m.part job.name).updated job step created := by
  rw [updated, updated]
  split
  · exact part_record m job step.status
  · rfl

theorem part_updated_ne (hne : other ≠ job.name) (step : Step) (created : Option String) :
    (m.updated job step created).part other = m.part other := by
  rw [updated]
  split
  · exact part_record_ne hne step.status
  · rfl

theorem part_relieved (m : MemoryStore) (effect : Effect) (name : String) :
    (m.relieved effect).part name = (m.part name).relieved effect := by
  cases effect with
  | delete worker => exact part_without m [worker] name
  | create | none => rfl

theorem part_relieved_ne {effect : Effect} (h : ∀ worker, effect = .delete worker →
      ∀ w, m.workers.get? worker = some w → w.owner.name ≠ other) :
    (m.relieved effect).part other = m.part other := by
  cases effect with
  | delete worker =>
    refine part_without_ne fun n hn => ?_
    obtain rfl := List.mem_singleton.mp hn
    exact h n rfl
  | create | none => rfl

/-! ## The end of a job -/

theorem part_deleteJob (found : m.jobs.get? job.name = some job) :
    (m.deleteJob job.name).2.part job.name = ((m.part job.name).deleteJob job.name).2 := by
  have found' : (m.part job.name).jobs.get? job.name = some job :=
    (job_part_self ..).trans found
  rw [deleteJob_found found, deleteJob_found found']
  refine eq_of_get? (Table.ext fun n => ?_) fun n => ?_
  · rw [job_part]
    dsimp only
    rw [Table.get?_erase, Table.get?_erase, job_part]
    by_cases hn : job.name = n
    · rw [if_pos hn, if_pos hn, ite_self]
    · rw [if_neg hn, if_neg hn]
  · rw [worker_part]
    dsimp only
    rw [Table.get?_filter, Table.get?_filter, worker_part, Option.filter_filter,
      Option.filter_filter]
    simp only [Bool.and_comm]

theorem part_deleteJob_ne (howned : m.OwnedByUid job) (found : m.jobs.get? job.name = some job)
    (hne : other ≠ job.name) : (m.deleteJob job.name).2.part other = m.part other := by
  rw [deleteJob_found found]
  refine part_eq_iff.mpr ⟨?_, fun n worker howner => ?_⟩
  · dsimp only
    rw [Table.get?_erase, if_neg (Ne.symm hne)]
  · dsimp only
    rw [Table.get?_filter, Option.filter_eq_some_iff]
    refine ⟨And.left, fun hw => ⟨hw, ?_⟩⟩
    -- the worker of another job is of another incarnation
    have huid : worker.owner.uid ≠ job.uid :=
      fun huid => hne (howner.symm.trans (howned n worker hw huid))
    simpa using huid

theorem part_wrappedUp (found : m.jobs.get? job.name = some job) (now : Instant) :
    (m.wrappedUp job now).part job.name = (m.part job.name).wrappedUp job now := by
  have found' : (m.without (m.workersOf job.name)).jobs.get? job.name = some job := found
  by_cases hexpired : job.retention now = .expired
  · rw [wrappedUp_of_expired hexpired, wrappedUp_of_expired hexpired, part_deleteJob found',
      part_without, workersOf_part]
  · rw [wrappedUp_of_kept hexpired, wrappedUp_of_kept hexpired, part_without, workersOf_part]

theorem part_wrappedUp_ne (h : m.Separable) (found : m.jobs.get? job.name = some job)
    (hne : other ≠ job.name) (now : Instant) :
    (m.wrappedUp job now).part other = m.part other := by
  have hcleared : (m.without (m.workersOf job.name)).part other = m.part other := by
    refine part_without_ne fun n hn worker hw howner => hne ?_
    obtain ⟨k, _, rfl, _⟩ := h.consistent.mem_workersOf_iff.mp hn
    rw [← howner, h.ownedByName job.name k worker hw]
  by_cases hexpired : job.retention now = .expired
  · have howned : (m.without (m.workersOf job.name)).OwnedByUid job := by
      intro n worker hw huid
      rw [get?_without] at hw
      split at hw
      · cases hw
      · exact h.ownedByUid found n worker hw huid
    have found' : (m.without (m.workersOf job.name)).jobs.get? job.name = some job := found
    rw [wrappedUp_of_expired hexpired, part_deleteJob_ne howned found' hne, hcleared]
  · rw [wrappedUp_of_kept hexpired, hcleared]

end MemoryStore

namespace Reconciler

variable {r : Reconciler} {m : MemoryStore} {job : Job} {name other : String}
  {now clock clock' : Instant}

/-! ## What a visit does to a part -/

theorem part_supplied (hm : m.OwnedByName job.name) (found : m.jobs.get? job.name = some job) :
    (r.supplied clock m job).part job.name = r.supplied clock (m.part job.name) job := by
  have found' : (m.part job.name).jobs.get? job.name = some job :=
    (m.job_part_self job.name).trans found
  refine MemoryStore.eq_of_get? ?_ fun n => ?_
  · have hjobs : (r.supplied clock m job).jobs = m.jobs := m.createWorker_jobs ..
    have hjobs' : (r.supplied clock (m.part job.name) job).jobs = (m.part job.name).jobs :=
      (m.part job.name).createWorker_jobs ..
    rw [hjobs', MemoryStore.part, hjobs]
    rfl
  · rw [MemoryStore.worker_part, get?_supplied found, get?_supplied found',
      MemoryStore.worker_part]
    split
    · next hn =>
      subst hn
      cases hw : m.workers.get? (Worker.nameOf job) with
      | none =>
        rw [Option.filter_none]
        exact Option.filter_some_pos (decide_eq_true rfl)
      | some worker =>
        have hkept : (some worker).filter (fun w => w.owner.name = job.name) = some worker :=
          Option.filter_some_pos (decide_eq_true (hm job.status.retries worker hw))
        rw [hkept]
        exact hkept
    · rfl

theorem part_supplied_ne (found : m.jobs.get? job.name = some job)
    (hne : other ≠ job.name) : (r.supplied clock m job).part other = m.part other := by
  refine MemoryStore.part_eq_iff.mpr ⟨?_, fun n worker howner => ?_⟩
  · rw [supplied, MemoryStore.createWorker_jobs]
  · rw [get?_supplied found]
    split
    · next hn =>
      subst hn
      -- both the worker that is there and the one that is created belong to the job
      cases hw : m.workers.get? (Worker.nameOf job) with
      | none =>
        refine iff_of_false (fun heq => hne ?_) nofun
        rw [← howner, ← Option.some.inj heq]
        rfl
      | some there => rfl
    · rfl

theorem part_carriedOut (hm : m.OwnedByName job.name) (found : m.jobs.get? job.name = some job)
    (step : Step) :
    (r.carriedOut clock m job step).part job.name =
      r.carriedOut clock (m.part job.name) job step := by
  by_cases heffect : step.effect = .create
  · rw [carriedOut_of_create heffect, carriedOut_of_create heffect, MemoryStore.part_record,
      part_supplied hm found]
  · rw [carriedOut_of_ne_create heffect, carriedOut_of_ne_create heffect,
      MemoryStore.part_relieved, MemoryStore.part_updated]

theorem part_carriedOut_ne (hm : m.OwnedByName job.name) (found : m.jobs.get? job.name = some job)
    (lawful : job.Lawful) (hne : other ≠ job.name) :
    (r.carriedOut clock m job (r.stepIn now m job)).part other = m.part other := by
  by_cases heffect : (r.stepIn now m job).effect = .create
  · rw [carriedOut_of_create heffect, MemoryStore.part_record_ne hne,
      part_supplied_ne found hne]
  · rw [carriedOut_of_ne_create heffect, MemoryStore.part_relieved_ne,
      MemoryStore.part_updated_ne hne]
    intro worker hdelete w hw howner
    rw [MemoryStore.updated_workers] at hw
    obtain ⟨-, -, -, hworker, -⟩ := stepIn_of_delete hdelete
    rw [lawful.getD_workerRef] at hworker
    rw [hworker] at hw
    exact hne (howner.symm.trans (hm job.status.retries w hw))

theorem stepIn_part (hm : m.OwnedByName job.name) (lawful : job.Lawful) :
    r.stepIn now (m.part job.name) job = r.stepIn now m job := by
  rw [stepIn, MemoryStore.sight_part hm lawful, stepIn]

theorem part_handled (h : m.Separable) (found : m.jobs.get? job.name = some job) :
    (r.handled now clock m job).part job.name = r.handled now clock (m.part job.name) job := by
  cases hterm : job.status.phase.terminal with
  | true =>
    rw [handled_of_terminal hterm, handled_of_terminal hterm, MemoryStore.part_wrappedUp found]
  | false =>
    have hm := (h.ownedByName job.name).readied job now
    rw [handled_of_alive hterm, handled_of_alive hterm, ← MemoryStore.part_readied,
      stepIn_part hm (h.lawful job.name job found),
      part_carriedOut hm (MemoryStore.found_readied found now)]

theorem part_handled_ne (h : m.Separable) (found : m.jobs.get? job.name = some job)
    (hne : other ≠ job.name) : (r.handled now clock m job).part other = m.part other := by
  cases hterm : job.status.phase.terminal with
  | true => rw [handled_of_terminal hterm, MemoryStore.part_wrappedUp_ne h found hne]
  | false =>
    rw [handled_of_alive hterm, part_carriedOut_ne ((h.ownedByName job.name).readied job now)
      (MemoryStore.found_readied found now) (h.lawful job.name job found) hne,
      MemoryStore.part_readied_ne h hne]

/-- What a visit directs is a matter of the part of its job. -/
theorem directed_part (h : m.Separable) (found : m.jobs.get? job.name = some job) :
    r.directed now (m.part job.name) job = r.directed now m job := by
  cases hterm : job.status.phase.terminal with
  | true => rw [directed_of_terminal hterm, directed_of_terminal hterm]
  | false =>
    have hm := (h.ownedByName job.name).readied job now
    rw [directed_of_alive hterm, directed_of_alive hterm, ← MemoryStore.part_readied,
      stepIn_part hm (h.lawful job.name job found)]

/-- **What a visit makes of the part of its job** depends on this part alone. -/
theorem part_visited (h : m.Separable) (name : String) :
    (r.visited now clock m name).part name = r.visited now clock (m.part name) name := by
  cases found : m.jobs.get? name with
  | none =>
    rw [visited_of_absent found, visited_of_absent ((m.job_part_self name).trans found)]
  | some job =>
    have named := h.consistent.named name job found
    subst named
    rw [visited_of_found found, visited_of_found ((m.job_part_self job.name).trans found),
      part_handled h found]

/-- **The parts of other jobs** stay as they are. -/
theorem part_visited_ne (h : m.Separable) (hne : other ≠ name) :
    (r.visited now clock m name).part other = m.part other := by
  cases found : m.jobs.get? name with
  | none => rw [visited_of_absent found]
  | some job =>
    have named := h.consistent.named name job found
    subst named
    rw [visited_of_found found, part_handled_ne h found hne]

end Reconciler

end JobOperator
