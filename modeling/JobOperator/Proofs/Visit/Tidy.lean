import JobOperator.Proofs.Visit.Scripts

/-!
# What holds between visits

* `Job.Admits`: the attempts that a job may have workers of. There are none of a job that has
  not been looked at, and only one of a job that runs.
* `MemoryStore.Tidy`: the workers of a store are of attempts that their jobs admit.
* `Reconciler.Residue.tidy`: a visit keeps this, **wherever it is disturbed**, and
  `Reconciler.Sequential.tidy`: so it holds as long as invocations do not overlap.

It is the sweep that makes room for a job to run: nothing is swept once it runs.
-/

namespace JobOperator

/-- The job may have a worker of this attempt. -/
structure Job.Admits (job : Job) (k : UInt32) : Prop where
  reached : k ≤ job.status.retries
  started : job.status.phase ≠ .unstarted
  running : job.status.phase = .running → k = job.status.retries

/-- Records are in their places, statuses are lawful, and all workers are of attempts that their
jobs admit. -/
structure MemoryStore.Tidy (m : MemoryStore) : Prop where
  consistent : m.Consistent
  lawful : ∀ name job, m.jobs.get? name = some job → job.Lawful
  admitted : ∀ name job k worker, m.jobs.get? name = some job →
    m.workers.get? (Worker.nameFor name k) = some worker → job.Admits k

/-- A worker is superseded if its name is that of an earlier attempt. -/
theorem Reconciler.superseded_iff {job : Job} {worker : Worker} {k : UInt32}
    (hname : worker.name = Worker.nameFor job.name k) :
    superseded job worker ↔ k < job.status.retries := by
  unfold superseded
  rw [hname, Worker.attemptOf?_nameFor]
  exact decide_eq_true_iff

namespace MemoryStore

variable {m m' : MemoryStore} {job : Job} {name : String}

/-! ## The workers of a job -/

namespace Consistent

theorem mem_listWorkers_iff (h : m.Consistent) {worker : Worker} :
    worker ∈ m.listWorkers (some name) ↔
      ∃ k, worker.name = Worker.nameFor name k ∧
        m.workers.get? (Worker.nameFor name k) = some worker := by
  constructor
  · intro hmem
    obtain ⟨rfl, n, hn⟩ := mem_listWorkers hmem
    obtain ⟨hname, ⟨k, hk⟩, -⟩ := h.placed _ _ hn
    exact ⟨k, hname.trans hk, by rw [← hk, hn]⟩
  · rintro ⟨k, -, hk⟩
    have howner := h.owner_of_name hk
    refine List.mem_filter.mpr ⟨List.mem_map.mpr ⟨_, Table.mem_toList_iff.mpr hk, rfl⟩, ?_⟩
    simpa using howner

theorem mem_workersOf_iff (h : m.Consistent) {n : String} :
    n ∈ m.workersOf name ↔
      ∃ k worker, n = Worker.nameFor name k ∧ m.workers.get? n = some worker := by
  rw [mem_workersOf fun n worker hn => (h.placed n worker hn).named]
  constructor
  · rintro ⟨worker, hn, rfl⟩
    obtain ⟨k, hk⟩ := (h.placed _ _ hn).attempt
    exact ⟨k, worker, hk, hn⟩
  · rintro ⟨k, worker, rfl, hn⟩
    exact ⟨worker, hn, h.owner_of_name hn⟩

theorem mem_supersededBy_iff (h : m.Consistent) {n : String} :
    n ∈ m.supersededBy job ↔ ∃ k worker, n = Worker.nameFor job.name k ∧
      m.workers.get? n = some worker ∧ k < job.status.retries := by
  constructor
  · intro hmem
    obtain ⟨worker, hworker, rfl⟩ := List.mem_map.mp hmem
    obtain ⟨hlisted, hold⟩ := List.mem_filter.mp hworker
    obtain ⟨k, hname, hk⟩ := h.mem_listWorkers_iff.mp hlisted
    exact ⟨k, worker, hname, by rw [hname, hk], (Reconciler.superseded_iff hname).mp hold⟩
  · rintro ⟨k, worker, rfl, hk, hlt⟩
    have hname := (h.placed _ _ hk).named
    have hold := (Reconciler.superseded_iff hname).mpr hlt
    exact List.mem_map.mpr
      ⟨worker, List.mem_filter.mpr ⟨h.mem_listWorkers_iff.mpr ⟨k, hname, hk⟩, hold⟩, hname⟩

/-- The sweep leaves no worker of an earlier attempt at a job that waits. -/
theorem swept (h : m.Consistent) {now : Instant} (hwaits : job.Waits now) {k : UInt32}
    (hlt : k < job.status.retries) :
    (m.readied job now).workers.get? (Worker.nameFor job.name k) = none := by
  rw [readied_of_waits hwaits, get?_without]
  split
  · rfl
  · next hkept =>
    refine Option.eq_none_iff_forall_ne_some.mpr fun worker hw => hkept ?_
    exact h.mem_supersededBy_iff.mpr ⟨k, worker, rfl, hw, hlt⟩

end Consistent

/-- Once the superseded workers are gone, a job that waits has workers of no other attempt than
the current one. -/
theorem Tidy.current_of_readied (h : m.Tidy) (found : m.jobs.get? job.name = some job)
    {now : Instant} (hwaits : job.Waits now) {k : UInt32} {worker : Worker}
    (hw : (m.readied job now).workers.get? (Worker.nameFor job.name k) = some worker) :
    k = job.status.retries := by
  have hreached := (h.admitted _ _ _ _ found (get?_of_readied hw)).reached
  have hnot : ¬ k < job.status.retries := fun hlt =>
    nomatch (h.consistent.swept hwaits hlt).symm.trans hw
  exact UInt32.le_antisymm hreached (UInt32.not_lt.mp hnot)

end MemoryStore

/-! ## What keeps a store tidy -/

/-- What a step makes of a job admits the workers that are there, if those that are superseded
have been swept. -/
theorem Job.Admits.step {job next : Job} {k : UInt32} {seen : Observation} {now : Instant}
    {pacing : Pacing} (h : job.Admits k) (hcurrent : job.Waits now → k = job.status.retries)
    (hstatus : next.status = (job.step seen now pacing).status) : next.Admits k := by
  obtain ⟨hreached, hstarted, hrunning⟩ := h
  by_cases hlate : job.pastDeadline now
  · have hfail : next.status = job.status.fail job.timeoutMessage now := by
      rw [hstatus]
      unfold Job.step
      rw [if_pos hlate]
    constructor <;> rw [hfail]
    · exact hreached
    · exact nofun
    · exact nofun
  · have hlate : job.pastDeadline now = false := by simpa using hlate
    have ht := job.step_transition seen now pacing
    rw [← hstatus] at ht
    generalize (job.step seen now pacing).effect = effect at ht
    obtain ⟨name, uid, version, createdAt, spec, status⟩ := next
    dsimp only at ht
    cases ht with
    | timedOut late =>
      rw [late] at hlate
      cases hlate
    | started hp => exact absurd hp hstarted
    | asked hp => exact ⟨hreached, hstarted, hrunning⟩
    | met hp => exact ⟨hreached, nofun, fun _ => hcurrent ⟨hp, hlate⟩⟩
    | vanished | succeeded | exhausted => exact ⟨hreached, nofun, nofun⟩
    | waited | finished => exact ⟨hreached, hstarted, hrunning⟩
    | retried _ _ left =>
      refine ⟨?_, nofun, nofun⟩
      rw [UInt32.le_iff_toNat_le] at hreached ⊢
      have hsucc := toNat_succ_of_lt left
      dsimp only
      omega

namespace MemoryStore.Tidy

variable {m m' : MemoryStore} {job : Job} {name : String}

/-- With fewer records a store is still tidy. -/
theorem mono (h : m.Tidy) (consistent : m'.Consistent)
    (jobs : ∀ name job, m'.jobs.get? name = some job → m.jobs.get? name = some job)
    (workers : ∀ n worker, m'.workers.get? n = some worker → ∃ w, m.workers.get? n = some w) :
    m'.Tidy := by
  refine ⟨consistent, fun name job hj => h.lawful name job (jobs name job hj),
    fun name job k worker hj hw => ?_⟩
  obtain ⟨w, hw⟩ := workers _ _ hw
  exact h.admitted name job k w (jobs name job hj) hw

theorem without (h : m.Tidy) (gone : List String) : (m.without gone).Tidy := by
  have hfewer : ∀ n worker, (m.without gone).workers.get? n = some worker →
      m.workers.get? n = some worker := fun n worker hw => by
    rw [get?_without] at hw
    split at hw
    · cases hw
    · exact hw
  refine h.mono ⟨h.consistent.named, fun n worker hw => ?_⟩ (fun _ _ hj => hj)
    fun n worker hw => ⟨worker, hfewer n worker hw⟩
  exact h.consistent.placed n worker (hfewer n worker hw)

theorem readied (h : m.Tidy) (job : Job) (now : Instant) : (m.readied job now).Tidy := by
  unfold MemoryStore.readied
  split
  · exact h.without _
  · exact h

/-- A call keeps a store tidy, if new jobs have no status yet, workers are only asked for by jobs
that wait, and a status that is written is lawful and admits the workers that are there. -/
theorem change {call : StoreCall} (h : m.Tidy) (hc : m.Change call m')
    (hsubmit : ∀ job, call = .createJob job → job.status = {})
    (hlaunch : ∀ launch, call = .createWorker launch → ∃ job,
      m.jobs.get? job.name = some job ∧ job.status.phase = .pending ∧
      launch.name = Worker.nameOf job ∧ launch.owner.name = job.name)
    (hwrite : ∀ job stored, call = .updateStatus job → m.jobs.get? job.name = some stored →
      ∀ next : Job, next.name = stored.name → next.spec = stored.spec → next.status = job.status →
        next.Lawful ∧ ∀ k worker, m.workers.get? (Worker.nameFor job.name k) = some worker →
          next.Admits k) : m'.Tidy := by
  have hconsistent : m'.Consistent := h.consistent.change hc fun launch heq => by
    obtain ⟨job, -, -, hname, howner⟩ := hlaunch launch heq
    exact ⟨job.status.retries, by rw [hname, howner]; rfl⟩
  cases hc with
  | nothing => exact h
  | submitted job free =>
    refine ⟨hconsistent, fun name j hj => ?_, fun name j k worker hj hw => ?_⟩
    · rw [Table.get?_insert] at hj
      split at hj
      · obtain rfl := Option.some.inj hj
        exact .submitted (hsubmit job rfl)
      · exact h.lawful name j hj
    · rw [Table.get?_insert] at hj
      split at hj
      · next hname =>
        -- there is no worker without its job
        obtain ⟨owner, howner, -⟩ := (h.consistent.placed _ _ hw).owned
        rw [h.consistent.owner_of_name hw, ← hname, free] at howner
        cases howner
      · exact h.admitted name j k worker hj hw
  | @written job stored found version uid =>
    have hnext := hwrite job stored rfl found { stored with
      status := job.status, resourceVersion := stored.resourceVersion + 1 } rfl rfl rfl
    refine ⟨hconsistent, fun name j hj => ?_, fun name j k worker hj hw => ?_⟩
    · rw [Table.get?_insert] at hj
      split at hj
      · obtain rfl := Option.some.inj hj
        exact hnext.1
      · exact h.lawful name j hj
    · rw [Table.get?_insert] at hj
      split at hj
      · next hname =>
        subst hname
        obtain rfl := Option.some.inj hj
        exact hnext.2 k worker hw
      · exact h.admitted name j k worker hj hw
  | withdrawn =>
    refine h.mono hconsistent (fun name job hj => ?_) fun n worker hw =>
      ⟨worker, (get?_of_filter hw).1⟩
    rw [Table.get?_erase] at hj
    split at hj
    · cases hj
    · exact hj
  | launched launch clock found uid free =>
    obtain ⟨job, hjob, hpending, hname, -⟩ := hlaunch launch rfl
    refine ⟨hconsistent, h.lawful, fun name j k worker hj hw => ?_⟩
    rw [Table.get?_insert] at hw
    split at hw
    · next hkey =>
      -- the name tells the job and the attempt
      obtain ⟨rfl, rfl⟩ := Worker.nameFor_inj (hname.symm.trans hkey)
      obtain rfl := Option.some.inj (hjob.symm.trans hj)
      exact ⟨UInt32.le_refl _, by rw [hpending]; exact nofun, fun _ => rfl⟩
    · exact h.admitted name j k worker hj hw
  | @reported name phase record found =>
    refine h.mono hconsistent (fun _ _ hj => hj) fun n worker hw => ?_
    rw [Table.get?_insert] at hw
    split at hw
    · next hname => exact ⟨record, by rw [← hname, found]⟩
    · exact ⟨worker, hw⟩
  | lost =>
    refine h.mono hconsistent (fun _ _ hj => hj) fun n worker hw => ⟨worker, ?_⟩
    rw [Table.get?_erase] at hw
    split at hw
    · cases hw
    · exact hw

theorem createWorker (h : m.Tidy) (clock : Instant) {launch : Worker.Launch}
    (found : m.jobs.get? job.name = some job) (pending : job.status.phase = .pending)
    (named : launch.name = Worker.nameOf job) (owner : launch.owner.name = job.name) :
    (m.createWorker clock launch).2.Tidy := by
  have hchange : m.Change (.createWorker launch) (m.createWorker clock launch).2 :=
    m.answer_change clock (.createWorker launch)
  refine h.change hchange (fun _ heq => nomatch heq) (fun launch' heq => ?_)
    fun _ _ heq => nomatch heq
  obtain rfl := StoreCall.createWorker.inj heq
  exact ⟨job, found, pending, named, owner⟩

theorem record (h : m.Tidy) (found : m.jobs.get? job.name = some job) {status : Job.Status}
    (hnext : ∀ next : Job, next.name = job.name → next.spec = job.spec → next.status = status →
      next.Lawful ∧ ∀ k worker, m.workers.get? (Worker.nameFor job.name k) = some worker →
        next.Admits k) : (m.record job status).Tidy := by
  have hchange : m.Change (.updateStatus { job with status }) (m.record job status) := by
    have hwritten := m.answer_change default (.updateStatus { job with status })
    rwa [show m.answer default (.updateStatus { job with status }) = _ from
      updateStatus_eq found status] at hwritten
  refine h.change hchange (fun _ heq => nomatch heq) (fun _ heq => nomatch heq)
    fun written stored heq hstored next hname hspec hstatus => ?_
  obtain rfl := StoreCall.updateStatus.inj heq
  obtain rfl := Option.some.inj (found.symm.trans hstored)
  exact hnext next hname hspec hstatus

end MemoryStore.Tidy

namespace Reconciler

variable {r : Reconciler} {now clock : Instant} {m m' : MemoryStore} {job : Job}

/-! ## Visits -/

/-- A job whose worker is seen has a name for it. -/
theorem isSome_of_sight {p : Worker.Phase} (h : m.sight job = .found p) :
    job.status.workerRef.isSome := by
  unfold MemoryStore.sight at h
  split at h
  · cases h
  · next href =>
    rw [href]
    rfl

/-- What the step of a visit makes of a job is lawful, and admits the workers that are left. -/
theorem next_of_stepIn (h : m.Tidy) (found : m.jobs.get? job.name = some job) (next : Job)
    (name : next.name = job.name) (spec : next.spec = job.spec)
    (status : next.status = (r.stepIn now (m.readied job now) job).status) :
    next.Lawful ∧ ∀ k worker,
      (m.readied job now).workers.get? (Worker.nameFor job.name k) = some worker →
        next.Admits k := by
  have ht := job.step_transition ((m.readied job now).sight job) now r.pacing
  have found' := MemoryStore.found_readied found now
  constructor
  · unfold stepIn at status
    rw [← status] at ht
    exact (h.lawful _ _ found).transition ht (fun _ => isSome_of_sight) name spec
  · intro k worker hw
    exact ((h.readied job now).admitted _ _ k worker found' hw).step
      (fun hwaits => h.current_of_readied found hwaits hw) status

/-- Asking for a worker leads to a tidy store, whether or not the status is written. -/
theorem supplied_tidy (h : m.Tidy) (found : m.jobs.get? job.name = some job)
    (heffect : (r.stepIn now m job).effect = .create) :
    (r.supplied clock m job).Tidy ∧
      ((r.supplied clock m job).record job (r.stepIn now m job).status).Tidy := by
  have ht := job.step_transition (m.sight job) now r.pacing
  unfold stepIn at heffect
  rw [heffect] at ht
  have hsupplied : (r.supplied clock m job).Tidy :=
    h.createWorker clock found ht.of_create.1 rfl rfl
  have found' : (r.supplied clock m job).jobs.get? job.name = some job := found_supplied found
  refine ⟨hsupplied, hsupplied.record found' fun next name spec status => ?_⟩
  constructor
  · have ht' : job.Transition (m.sight job) now next.status .create := by
      rw [status]
      exact ht
    exact (h.lawful _ _ found).transition ht' (fun _ => isSome_of_sight) name spec
  · intro k worker hw
    obtain ⟨hreached, hstarted, hrunning⟩ := hsupplied.admitted _ _ k worker found' hw
    have hstatus : next.status = { job.status with workerRef := some (Worker.nameOf job) } :=
      status.trans ht.eq_of_create
    constructor <;> rw [hstatus] <;> assumption

/-- **A visit leaves a tidy store tidy**, wherever it is disturbed. -/
theorem Residue.tidy (h : m.Tidy) (found : m.jobs.get? job.name = some job)
    (hres : r.Residue now clock m job m') : m'.Tidy := by
  have hbase := h.readied job now
  have found' := MemoryStore.found_readied found now
  have hrecord : ((m.readied job now).record job
      (r.stepIn now (m.readied job now) job).status).Tidy :=
    hbase.record found' (next_of_stepIn h found)
  cases hres with
  | untouched => exact h
  | swept | cleared => exact h.without _
  | supplied _ heffect => exact (supplied_tidy hbase found' heffect).1
  | recorded => exact hrecord
  | completed =>
    cases hterm : job.status.phase.terminal with
    | true =>
      rw [handled_of_terminal hterm]
      by_cases hexpired : job.retention now = .expired
      · rw [MemoryStore.wrappedUp_of_expired hexpired]
        exact ((h.without _).change (m.without _ |>.answer_change default (.deleteJob job.name))
          (fun _ heq => nomatch heq) (fun _ heq => nomatch heq) (fun _ _ heq => nomatch heq))
      · rw [MemoryStore.wrappedUp_of_kept hexpired]
        exact h.without _
    | false =>
      rw [handled_of_alive hterm]
      by_cases heffect : (r.stepIn now (m.readied job now) job).effect = .create
      · rw [carriedOut_of_create heffect]
        exact (supplied_tidy hbase found' heffect).2
      · rw [carriedOut_of_ne_create heffect]
        have hupdated : ((m.readied job now).updated job
            (r.stepIn now (m.readied job now) job) none).Tidy := by
          unfold MemoryStore.updated
          split
          · exact hrecord
          · exact hbase
        unfold MemoryStore.relieved
        split
        · exact hupdated.without _
        · exact hupdated
        · exact hupdated

/-- As long as invocations do not overlap, the store is tidy. -/
theorem Sequential.tidy (h : r.Sequential m) : m.Tidy := by
  induction h with
  | empty => exact ⟨.empty, fun _ _ hj => (by cases hj), fun _ _ _ _ hj => (by cases hj)⟩
  | @submitted m _ submission uid createdAt ih =>
    refine ih.change (m.answer_change default (.createJob (submission.toJob uid createdAt)))
      (fun job heq => ?_) (fun _ heq => nomatch heq) fun _ _ heq => nomatch heq
    obtain rfl := StoreCall.createJob.inj heq
    rfl
  | @withdrawn m _ job ih =>
    exact ih.change (m.answer_change default (.deleteJob job)) (fun _ heq => nomatch heq)
      (fun _ heq => nomatch heq) fun _ _ heq => nomatch heq
  | @reported m _ worker phase ih =>
    exact ih.change (m.answer_change default (.updateWorkerPhase worker phase))
      (fun _ heq => nomatch heq) (fun _ heq => nomatch heq) fun _ _ heq => nomatch heq
  | @lost m _ worker ih =>
    exact ih.change (m.answer_change default (.deleteWorker worker)) (fun _ heq => nomatch heq)
      (fun _ heq => nomatch heq) fun _ _ heq => nomatch heq
  | @visited m _ name v ih =>
    cases found : m.jobs.get? name with
    | none =>
      rw [visit_absent found]
      exact ih
    | some job =>
      have named := ih.consistent.named name job found
      subst named
      exact (visit_residue found rfl v).tidy ih found

end Reconciler

end JobOperator
