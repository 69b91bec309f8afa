import JobOperator.Proofs.Lifecycle.Discipline
import JobOperator.Proofs.Store.Listing

/-!
# A store accounts for its calls

* `MemoryStore.Serves`: what a call is answered, together with what it does to the store.
* `MemoryStore.serve`: the transcript of calls to an empty store, and the store after them;
  `MemoryStore.Served` has one constructor for each call more.
* `Job.grown`: what becomes of a job that was created: its status is the one that was written
  last, its version has been counted up by every write, and the rest stays as it was.
* `MemoryStore.Served.stored_iff`: the jobs in the store are **those that were created and not
  deleted since**, grown by the writes in between.
* `MemoryStore.accountable`: a store is what its transcript says; nothing but the stored
  version decides on a write; and who is deleted with a job belongs to it.

Nothing is demanded of the callers but that jobs of different names have different uids.
-/

namespace JobOperator

namespace Script.Exchange

/-- The job that has been created. -/
def created? : Exchange StoreCall StoreCall.Answer → Option Job
  | ⟨.createJob job, .ok _⟩ => some job
  | _ => none

/-- The status of the job of this name has been written. -/
def writes (name : String) : Exchange StoreCall StoreCall.Answer → Bool
  | ⟨.updateStatus job, .ok _⟩ => job.name = name
  | _ => false

/-- The job of this name has been deleted. -/
def deletes (name : String) : Exchange StoreCall StoreCall.Answer → Bool
  | ⟨.deleteJob n, .ok _⟩ => n = name
  | _ => false

/-- The status of the job of this name, which has been another one before. -/
def statusAfter (name : String) (before : Job.Status) :
    Exchange StoreCall StoreCall.Answer → Job.Status
  | ⟨.updateStatus job, .ok _⟩ => if job.name = name then job.status else before
  | _ => before

/-- The call has been refused, or it was one that only reads. -/
inductive Idle : Exchange StoreCall StoreCall.Answer → Prop where
  | refused (call : StoreCall) (e : StoreError) : Idle ⟨call, .error e⟩
  | getJob (name : String) (reply : Except StoreError Job) : Idle ⟨.getJob name, reply⟩
  | listJobs (reply : Except StoreError (List Job)) : Idle ⟨.listJobs, reply⟩
  | getWorker (name : String) (reply : Except StoreError Worker) : Idle ⟨.getWorker name, reply⟩
  | listWorkers (owner : Option String) (reply : Except StoreError (List Worker)) :
      Idle ⟨.listWorkers owner, reply⟩

theorem created?_eq_some {x : Exchange StoreCall StoreCall.Answer} {job : Job} :
    x.created? = some job ↔ ∃ reply, x = ⟨.createJob job, .ok reply⟩ := by
  constructor
  · intro h
    obtain ⟨call, reply⟩ := x
    cases call with
    | createJob new =>
      cases reply with
      | ok stored =>
        obtain rfl := Option.some.inj h
        exact ⟨stored, rfl⟩
      | error => cases h
    | updateStatus | getJob | listJobs | deleteJob | createWorker | getWorker | listWorkers
    | updateWorkerPhase | deleteWorker => cases h
  · rintro ⟨reply, rfl⟩
    rfl

end Script.Exchange

namespace MemoryStore

/-- What a call is answered, and the store after it. -/
inductive Serves (m : MemoryStore) : Script.Exchange StoreCall StoreCall.Answer → MemoryStore → Prop
    where
  | idle {x : Script.Exchange StoreCall StoreCall.Answer} (idle : x.Idle) : Serves m x m
  | submitted (job : Job) (free : m.jobs.get? job.name = none) :
      Serves m ⟨.createJob job, .ok { job with resourceVersion := 1 }⟩
        { m with jobs := m.jobs.insert job.name { job with resourceVersion := 1 } }
  | written (job : Job) {stored : Job} (found : m.jobs.get? job.name = some stored) :
      Serves m ⟨.updateStatus job, .ok { stored with
            status := job.status, resourceVersion := stored.resourceVersion + 1 }⟩
        { m with jobs := m.jobs.insert job.name { stored with
            status := job.status, resourceVersion := stored.resourceVersion + 1 } }
  | withdrawn (name : String) {job : Job} (found : m.jobs.get? name = some job) :
      Serves m ⟨.deleteJob name, .ok ()⟩
        { jobs := m.jobs.erase name
          workers := m.workers.filter fun _ w => w.owner.uid ≠ job.uid }
  | launched (launch : Worker.Launch) (clock : Instant) {owner : Job}
      (found : m.jobs.get? launch.owner.name = some owner) (uid : owner.uid = launch.owner.uid) :
      Serves m ⟨.createWorker launch, .ok (launch.toWorker clock)⟩
        { m with workers := m.workers.insert launch.name (launch.toWorker clock) }
  | reported (name : String) (phase : Worker.Phase) {worker : Worker}
      (found : m.workers.get? name = some worker) :
      Serves m ⟨.updateWorkerPhase name phase, .ok { worker with phase }⟩
        { m with workers := m.workers.insert name { worker with phase } }
  | lost (name : String) :
      Serves m ⟨.deleteWorker name, .ok ()⟩ { m with workers := m.workers.erase name }

/-- Every call is served like this. -/
theorem answer_serves (m : MemoryStore) (clock : Instant) (call : StoreCall) :
    m.Serves ⟨call, (m.answer clock call).1⟩ (m.answer clock call).2 := by
  cases call with
  | getJob => exact .idle (.getJob ..)
  | listJobs => exact .idle (.listJobs ..)
  | getWorker => exact .idle (.getWorker ..)
  | listWorkers => exact .idle (.listWorkers ..)
  | createJob job =>
    unfold answer createJob
    dsimp only
    split
    · exact .idle (.refused ..)
    · next hfree => exact .submitted job (get?_eq_none_of_not_contains hfree)
  | updateStatus job =>
    unfold answer updateStatus
    dsimp only
    split
    · exact .idle (.refused ..)
    · next stored hfound =>
      split
      · exact .written job hfound
      · exact .idle (.refused ..)
  | deleteJob name =>
    unfold answer deleteJob
    dsimp only
    split
    · exact .idle (.refused ..)
    · next job hfound => exact .withdrawn name hfound
  | createWorker launch =>
    unfold answer createWorker
    dsimp only
    split
    · next halive =>
      obtain ⟨owner, hfound, huid⟩ := (Option.any_eq_true _ _).mp halive
      split
      · exact .idle (.refused ..)
      · exact .launched launch clock hfound (by simpa using huid)
    · exact .idle (.refused ..)
  | updateWorkerPhase name phase =>
    unfold answer updateWorkerPhase
    dsimp only
    split
    · exact .idle (.refused ..)
    · next worker hfound => exact .reported name phase hfound
  | deleteWorker name =>
    unfold answer deleteWorker
    dsimp only
    split
    · exact .lost name
    · exact .idle (.refused ..)

/-- The stores that come about by calls, one after another, from the empty store. -/
inductive Served : StoreTranscript → MemoryStore → Prop where
  | start : Served [] {}
  | call {log : StoreTranscript} {m : MemoryStore} (before : Served log m) (clock : Instant)
      (call : StoreCall) :
      Served (log ++ [⟨call, (m.answer clock call).1⟩]) (m.answer clock call).2

/-- One call more, with what the clock of the store reads. -/
def serveNext (served : StoreTranscript × MemoryStore) (call : Instant × StoreCall) :
    StoreTranscript × MemoryStore :=
  (served.1 ++ [⟨call.2, (served.2.answer call.1 call.2).1⟩], (served.2.answer call.1 call.2).2)

/-- The transcript of calls to an empty store, and the store after them. -/
def serve (calls : List (Instant × StoreCall)) : StoreTranscript × MemoryStore :=
  calls.foldl serveNext ([], {})

theorem serve_append (calls : List (Instant × StoreCall)) (call : Instant × StoreCall) :
    serve (calls ++ [call]) = serveNext (serve calls) call := List.foldl_append ..

theorem Served.foldl {served : StoreTranscript × MemoryStore} (h : Served served.1 served.2)
    (calls : List (Instant × StoreCall)) :
    Served (calls.foldl serveNext served).1 (calls.foldl serveNext served).2 := by
  induction calls generalizing served with
  | nil => exact h
  | cons call calls ih => exact ih (h.call call.1 call.2)

theorem served_serve (calls : List (Instant × StoreCall)) :
    Served (serve calls).1 (serve calls).2 :=
  Served.foldl .start calls

end MemoryStore

/-! ## What becomes of a job -/

/-- What becomes of a job that was created, by what is called afterwards. -/
def Job.grown (created : Job) (after : StoreTranscript) : Job :=
  { created with
    status := after.foldl (fun status x => x.statusAfter created.name status) created.status
    resourceVersion := 1 + .ofNat (after.countP (·.writes created.name)) }

/-- The job has been created, and `after` is what has been called since. It has not been deleted. -/
def StoreTranscript.Follows (log : StoreTranscript) (created : Job) (after : StoreTranscript) :
    Prop :=
  ∃ before reply, log = before ++ ⟨.createJob created, .ok reply⟩ :: after ∧
    ∀ x ∈ after, x.deletes created.name = false

/-- What becomes of a job by one call that does not delete it. -/
def Job.met (job : Job) (x : Script.Exchange StoreCall StoreCall.Answer) : Job :=
  { job with
    status := x.statusAfter job.name job.status
    resourceVersion := job.resourceVersion + if x.writes job.name then 1 else 0 }

variable {log after : StoreTranscript} {x : Script.Exchange StoreCall StoreCall.Answer}
  {created job : Job} {m m' : MemoryStore} {name : String}

theorem Job.grown_append (created : Job) (after : StoreTranscript)
    (x : Script.Exchange StoreCall StoreCall.Answer) :
    created.grown (after ++ [x]) = (created.grown after).met x := by
  simp only [grown, met, List.foldl_append, List.countP_append, List.foldl_cons, List.foldl_nil,
    List.countP_singleton, UInt64.ofNat_add, UInt64.add_assoc, apply_ite UInt64.ofNat]
  rfl

/-- One call more has either created the job, or it comes after that. -/
theorem StoreTranscript.follows_append : StoreTranscript.Follows (log ++ [x]) created after ↔
    (after = [] ∧ ∃ reply, x = ⟨.createJob created, .ok reply⟩) ∨
      ∃ before, after = before ++ [x] ∧ log.Follows created before ∧
        x.deletes created.name = false := by
  constructor
  · rintro ⟨before, reply, hlog, hkept⟩
    rcases List.eq_nil_or_concat after with rfl | ⟨after, last, rfl⟩
    · obtain ⟨-, hlast⟩ := List.append_inj' hlog rfl
      exact .inl ⟨rfl, reply, (List.cons.inj hlast).1⟩
    · rw [List.concat_eq_append] at hlog hkept ⊢
      rw [← List.cons_append, ← List.append_assoc] at hlog
      obtain ⟨rfl, hlast⟩ := List.append_inj' hlog rfl
      obtain rfl := (List.cons.inj hlast).1
      exact .inr ⟨after, rfl, ⟨before, reply, rfl, fun y hy => hkept y (List.mem_append_left _ hy)⟩,
        hkept x (List.mem_append_right _ (List.mem_singleton_self x))⟩
  · rintro (⟨rfl, reply, rfl⟩ | ⟨before, rfl, ⟨first, reply, rfl, hkept⟩, hdeletes⟩)
    · exact ⟨log, reply, rfl, fun y hy => absurd hy List.not_mem_nil⟩
    · refine ⟨first, reply, by simp, fun y hy => ?_⟩
      rcases List.mem_append.mp hy with hy | hy
      · exact hkept y hy
      · obtain rfl := List.mem_singleton.mp hy
        exact hdeletes

/-- A call that writes no status of this job leaves it as it is. -/
theorem Job.met_of_not_writes (h : x.writes job.name = false) : job.met x = job := by
  have hstatus : x.statusAfter job.name job.status = job.status := by
    obtain ⟨call, reply⟩ := x
    cases call with
    | updateStatus written =>
      cases reply with
      | ok => exact if_neg (of_decide_eq_false h)
      | error => rfl
    | createJob | getJob | listJobs | deleteJob | createWorker | getWorker | listWorkers
    | updateWorkerPhase | deleteWorker => rfl
  simp only [met, hstatus, h, Bool.false_eq_true, if_false, UInt64.add_zero]

/-- A write of the status of this job. -/
theorem Job.met_of_written {read stored : Job} (h : read.name = job.name) :
    job.met ⟨.updateStatus read, .ok stored⟩ = { job with
      status := read.status, resourceVersion := job.resourceVersion + 1 } := by
  simp only [met, Script.Exchange.writes, Script.Exchange.statusAfter, h, decide_true, if_true]

namespace MemoryStore

/-- A call that neither creates a job nor writes or deletes one. -/
structure Spares (x : Script.Exchange StoreCall StoreCall.Answer) : Prop where
  created : x.created? = none
  writes : ∀ name, x.writes name = false
  deletes : ∀ name, x.deletes name = false

theorem Spares.of_idle (h : x.Idle) : Spares x := by
  cases h with
  | refused call e =>
    cases call with
    | createJob | updateStatus | getJob | listJobs | deleteJob | createWorker | getWorker
    | listWorkers | updateWorkerPhase | deleteWorker => exact ⟨rfl, fun _ => rfl, fun _ => rfl⟩
  | getJob | listJobs | getWorker | listWorkers => exact ⟨rfl, fun _ => rfl, fun _ => rfl⟩

/-- The jobs after a call: one that it has created, and those from before that it has not
deleted. -/
theorem Serves.jobs_iff (hs : m.Serves x m') (named : m.Named) :
    m'.jobs.get? name = some job ↔
      (∃ created, x.created? = some created ∧ created.name = name ∧
        { created with resourceVersion := 1 } = job) ∨
      ∃ before, m.jobs.get? name = some before ∧ before.met x = job ∧ x.deletes name = false := by
  have hspared : Spares x → m'.jobs = m.jobs → (m'.jobs.get? name = some job ↔
      (∃ created, x.created? = some created ∧ created.name = name ∧
        { created with resourceVersion := 1 } = job) ∨
      ∃ before, m.jobs.get? name = some before ∧ before.met x = job ∧ x.deletes name = false) := by
    intro hx hjobs
    rw [hjobs]
    constructor
    · exact fun hjob => .inr ⟨job, hjob, Job.met_of_not_writes (hx.writes _), hx.deletes _⟩
    · rintro (⟨created, hcreated, -⟩ | ⟨before, hbefore, hmet, -⟩)
      · exact absurd (hx.created.symm.trans hcreated) nofun
      · rw [Job.met_of_not_writes (hx.writes _)] at hmet
        rw [hbefore, hmet]
  cases hs with
  | idle idle => exact hspared (.of_idle idle) rfl
  | launched | reported | lost => exact hspared ⟨rfl, fun _ => rfl, fun _ => rfl⟩ rfl
  | submitted new free =>
    rw [Table.get?_insert]
    constructor
    · intro hjob
      split at hjob
      · next hname => exact .inl ⟨new, rfl, hname, Option.some.inj hjob⟩
      · exact .inr ⟨job, hjob, Job.met_of_not_writes rfl, rfl⟩
    · rintro (⟨created, hcreated, hname, hjob⟩ | ⟨before, hbefore, hmet, -⟩)
      · obtain rfl := Option.some.inj hcreated
        rw [if_pos hname, hjob]
      · rw [Job.met_of_not_writes rfl] at hmet
        rw [if_neg, hbefore, hmet]
        rintro rfl
        exact absurd (free.symm.trans hbefore) nofun
  | @written read stored found =>
    have hstored := named _ _ found
    rw [Table.get?_insert]
    by_cases hname : read.name = name
    · subst hname
      rw [if_pos rfl]
      constructor
      · exact fun heq => .inr ⟨stored, found, (Job.met_of_written hstored.symm).trans
          (Option.some.inj heq), rfl⟩
      · rintro (⟨_, hcreated, -⟩ | ⟨before, hbefore, hmet, -⟩)
        · cases hcreated
        · obtain rfl := Option.some.inj (found.symm.trans hbefore)
          rw [← hmet, Job.met_of_written hstored.symm]
    · rw [if_neg hname]
      have hother : ∀ before, m.jobs.get? name = some before →
          before.met ⟨.updateStatus read, .ok { stored with
            status := read.status, resourceVersion := stored.resourceVersion + 1 }⟩ = before := by
        intro before hbefore
        refine Job.met_of_not_writes (decide_eq_false ?_)
        rw [named _ _ hbefore]
        exact hname
      constructor
      · exact fun hjob => .inr ⟨job, hjob, hother job hjob, rfl⟩
      · rintro (⟨_, hcreated, -⟩ | ⟨before, hbefore, hmet, -⟩)
        · cases hcreated
        · rw [hbefore, ← hmet, hother before hbefore]
  | @withdrawn gone old found =>
    rw [Table.get?_erase]
    constructor
    · intro hjob
      split at hjob
      · cases hjob
      · next hname =>
        exact .inr ⟨job, hjob, Job.met_of_not_writes rfl, decide_eq_false hname⟩
    · rintro (⟨_, hcreated, -⟩ | ⟨before, hbefore, hmet, hkept⟩)
      · cases hcreated
      · rw [Job.met_of_not_writes rfl] at hmet
        rw [if_neg (of_decide_eq_false hkept), hbefore, hmet]

namespace Served

/-- Records lie under their names, and workers have their owners. -/
theorem inPlace (h : Served log m) : m.Named ∧ m.Filed ∧ m.Owned := by
  induction h with
  | start => exact ⟨Consistent.empty.named, Consistent.empty.filed, Consistent.empty.owned⟩
  | @call log m before clock call ih =>
    obtain ⟨hnamed, hfiled, howned⟩ := ih
    have hchange := m.answer_change clock call
    exact ⟨hnamed.change hchange, hfiled.change hchange, howned.change hchange⟩

/-- **The jobs in the store** are those that were created and not deleted since, grown by what
was written in between. -/
theorem stored_iff (h : Served log m) : m.jobs.get? name = some job ↔
    ∃ created after, log.Follows created after ∧ created.name = name ∧
      created.grown after = job := by
  induction h generalizing name job with
  | start =>
    constructor
    · exact nofun
    · rintro ⟨created, after, ⟨before, reply, hlog, -⟩, -⟩
      exact absurd hlog (by simp)
  | @call log m before clock call ih =>
    rw [(m.answer_serves clock call).jobs_iff before.inPlace.1]
    generalize (⟨call, _⟩ : Script.Exchange StoreCall StoreCall.Answer) = x
    constructor
    · rintro (⟨created, hcreated, hname, rfl⟩ | ⟨old, hold, rfl, hkept⟩)
      · exact ⟨created, [], StoreTranscript.follows_append.mpr
          (.inl ⟨rfl, Script.Exchange.created?_eq_some.mp hcreated⟩), hname, rfl⟩
      · obtain ⟨created, after, hfollows, rfl, rfl⟩ := ih.mp hold
        exact ⟨created, after ++ [x], StoreTranscript.follows_append.mpr
          (.inr ⟨after, rfl, hfollows, hkept⟩), rfl, created.grown_append after x⟩
    · rintro ⟨created, after, hfollows, rfl, rfl⟩
      rcases StoreTranscript.follows_append.mp hfollows with ⟨rfl, hcreated⟩ |
        ⟨after, rfl, hfollows, hkept⟩
      · exact .inl ⟨created, Script.Exchange.created?_eq_some.mpr hcreated, rfl, rfl⟩
      · exact .inr ⟨created.grown after, ih.mpr ⟨created, after, hfollows, rfl, rfl⟩,
          (created.grown_append after x).symm, hkept⟩

end Served

end MemoryStore

/-- Jobs of different names have different uids. -/
def StoreTranscript.Distinct (log : StoreTranscript) : Prop :=
  ∀ a b reply reply', ⟨.createJob a, .ok reply⟩ ∈ log → ⟨.createJob b, .ok reply'⟩ ∈ log →
    a.uid = b.uid → a.name = b.name

/-- It is enough to look at the jobs that were created. -/
theorem StoreTranscript.distinct_of_created
    (h : ∀ a ∈ log.filterMap (·.created?), ∀ b ∈ log.filterMap (·.created?),
      a.uid = b.uid → a.name = b.name) : log.Distinct := by
  have hmem : ∀ job reply, ⟨.createJob job, .ok reply⟩ ∈ log → job ∈ log.filterMap (·.created?) :=
    fun job reply hjob => List.mem_filterMap.mpr ⟨_, hjob, rfl⟩
  intro a b reply reply' ha hb
  exact h a (hmem a reply ha) b (hmem b reply' hb)

/-- What holds of a transcript has held before its end. -/
theorem StoreTranscript.Distinct.of_append {rest : StoreTranscript}
    (h : StoreTranscript.Distinct (log ++ rest)) : log.Distinct :=
  fun a b reply reply' ha hb =>
    h a b reply reply' (List.mem_append_left _ ha) (List.mem_append_left _ hb)

theorem StoreTranscript.Follows.mem (h : StoreTranscript.Follows log created after) :
    ∃ reply, ⟨.createJob created, .ok reply⟩ ∈ log := by
  obtain ⟨before, reply, rfl, -⟩ := h
  exact ⟨reply, List.mem_append_right _ (List.mem_cons_self ..)⟩

/-- What a worker has to name as its owner to belong to a job. -/
def Job.identity (job : Job) : Owner := ⟨job.name, job.uid⟩

namespace MemoryStore

/-- A uid stands for one stored job. -/
theorem Served.eq_of_uid (h : Served log m) (distinct : log.Distinct) {a b : Job}
    {n n' : String} (ha : m.jobs.get? n = some a) (hb : m.jobs.get? n' = some b)
    (uid : a.uid = b.uid) : a = b := by
  obtain ⟨first, after, hfirst, hn, hgrown⟩ := h.stored_iff.mp ha
  obtain ⟨second, after', hsecond, hn', hgrown'⟩ := h.stored_iff.mp hb
  obtain ⟨reply, hreply⟩ := hfirst.mem
  obtain ⟨reply', hreply'⟩ := hsecond.mem
  rw [← hgrown, ← hgrown'] at uid
  have hname := distinct first second reply reply' hreply hreply' uid
  rw [← hn, hname, hn', hb] at ha
  exact (Option.some.inj ha).symm

/-- A store that is what the transcript of its calls says, and whose next answer is what the store
says. -/
structure Accountable (log : StoreTranscript) (m : MemoryStore) : Prop where
  jobs_named : ∀ name job, m.jobs.get? name = some job → job.name = name
  workers_named : ∀ name worker, m.workers.get? name = some worker → worker.name = name
  /-- every worker's owner is stored -/
  owned : ∀ name worker, m.workers.get? name = some worker →
    ∃ job, m.jobs.get? worker.owner.name = some job ∧ worker.owner = job.identity
  /-- a stored job has been created and not been deleted since, and only its status and its version
  are not what they were then -/
  stored : ∀ name job, m.jobs.get? name = some job ↔
    ∃ created after, log.Follows created after ∧ created.name = name ∧
      created.grown after = job
  /-- the version counts the writes -/
  counted : ∀ created after, log.Follows created after →
    after.countP (·.writes created.name) + 1 < UInt64.size →
    ∃ job, m.jobs.get? created.name = some job ∧
      job.resourceVersion.toNat = 1 + after.countP (·.writes created.name)
  /-- a write is accepted if nobody has written since -/
  writes : ∀ clock job, (∃ written, (m.answer clock (.updateStatus job)).1 = .ok written) ↔
    ∃ stored, m.jobs.get? job.name = some stored ∧ stored.uid = job.uid ∧
      stored.resourceVersion = job.resourceVersion
  /-- a write changes the status and the version of one job -/
  written : ∀ clock job written, (m.answer clock (.updateStatus job)).1 = .ok written →
    (m.answer clock (.updateStatus job)).2.workers = m.workers ∧
    ∃ stored, m.jobs.get? job.name = some stored ∧
      written = { stored with
        status := job.status, resourceVersion := stored.resourceVersion + 1 } ∧
      ∀ name, (m.answer clock (.updateStatus job)).2.jobs.get? name =
        if name = job.name then some written else m.jobs.get? name
  /-- who goes with a job belongs to it -/
  deleted : ∀ clock name job, m.jobs.get? name = some job →
    (m.answer clock (.deleteJob name)).1 = .ok () ∧
    (∀ n, (m.answer clock (.deleteJob name)).2.jobs.get? n =
      if n = name then none else m.jobs.get? n) ∧
    ∀ n worker, (m.answer clock (.deleteJob name)).2.workers.get? n = some worker ↔
      m.workers.get? n = some worker ∧ worker.owner ≠ job.identity
  /-- a call that is refused changes nothing -/
  refused : ∀ clock call e, (m.answer clock call).1 = .error e → (m.answer clock call).2 = m

theorem answer_eq_error {clock : Instant} {call : StoreCall} {e : StoreError}
    (h : (m.answer clock call).1 = .error e) : (m.answer clock call).2 = m := by
  have hs := m.answer_serves clock call
  rw [h] at hs
  generalize (m.answer clock call).2 = m' at hs
  cases hs with
  | idle => rfl

theorem answer_updateStatus {clock : Instant} {written : Job}
    (h : (m.answer clock (.updateStatus job)).1 = .ok written) :
    ∃ stored, m.jobs.get? job.name = some stored ∧ stored.uid = job.uid ∧
      stored.resourceVersion = job.resourceVersion ∧
      written = { stored with
        status := job.status, resourceVersion := stored.resourceVersion + 1 } ∧
      (m.answer clock (.updateStatus job)).2 =
        { m with jobs := m.jobs.insert job.name written } := by
  unfold answer updateStatus at h ⊢
  dsimp only at h ⊢
  split at h
  · cases h
  · next stored found =>
    split at h
    · next hcas =>
      obtain rfl := Except.ok.inj h
      refine ⟨stored, found, hcas.2, hcas.1, rfl, ?_⟩
      rw [if_pos hcas]
    · cases h

/-- Whom the deletion of a job takes with it: as a uid stands for one job, those that name this job
as their owner. -/
theorem Served.get?_deleteJob (h : Served log m) (distinct : log.Distinct)
    (found : m.jobs.get? name = some job) {n : String} {worker : Worker} :
    (m.deleteJob name).2.workers.get? n = some worker ↔
      m.workers.get? n = some worker ∧ worker.owner ≠ job.identity := by
  obtain ⟨hnamed, -, howned⟩ := h.inPlace
  have hdeleted : (m.deleteJob name).2.workers =
      m.workers.filter fun _ w => w.owner.uid ≠ job.uid := by rw [deleteJob, found]
  rw [hdeleted, Table.get?_filter, Option.filter_eq_some_iff]
  refine and_congr_right fun hw => ?_
  rw [decide_eq_true_iff]
  constructor
  · exact fun hne heq => hne (by rw [heq]; rfl)
  · intro hne huid
    obtain ⟨owner, howner, hsame⟩ := howned n worker hw
    obtain rfl := h.eq_of_uid distinct howner found (hsame.trans huid)
    refine hne ?_
    rw [Job.identity, hnamed _ _ howner, hsame]

theorem Served.accounts (h : Served log m) (distinct : log.Distinct) : m.Accountable log where
  jobs_named := h.inPlace.1
  workers_named := h.inPlace.2.1
  owned := by
    intro name worker hw
    obtain ⟨job, hjob, huid⟩ := h.inPlace.2.2 name worker hw
    refine ⟨job, hjob, ?_⟩
    rw [Job.identity, h.inPlace.1 _ _ hjob, huid]
  stored := fun _ _ => h.stored_iff
  counted := by
    intro created after hfollows hlt
    refine ⟨_, h.stored_iff.mpr ⟨created, after, hfollows, rfl, rfl⟩, ?_⟩
    have hcount : (UInt64.ofNat (after.countP (·.writes created.name))).toNat =
        after.countP (·.writes created.name) := UInt64.toNat_ofNat_of_lt' (Nat.lt_of_succ_lt hlt)
    have hfits : 1 + after.countP (·.writes created.name) < UInt64.size := by omega
    rw [Job.grown, UInt64.toNat_add, hcount]
    exact Nat.mod_eq_of_lt hfits
  writes := by
    intro clock job
    constructor
    · rintro ⟨written, hwritten⟩
      obtain ⟨stored, found, huid, hversion, -⟩ := answer_updateStatus hwritten
      exact ⟨stored, found, huid, hversion⟩
    · rintro ⟨stored, found, huid, hversion⟩
      exact ⟨_, updateStatus_current found hversion huid⟩
  written := by
    intro clock job written hwritten
    obtain ⟨stored, found, -, -, hrecord, hstore⟩ := answer_updateStatus hwritten
    rw [hstore]
    refine ⟨rfl, stored, found, hrecord, fun name => ?_⟩
    dsimp only
    rw [Table.get?_insert]
    simp only [eq_comm]
  deleted := by
    intro clock name job found
    refine ⟨?_, fun n => ?_, fun n worker => h.get?_deleteJob distinct found⟩
    · rw [answer, deleteJob, found]
    · rw [answer, deleteJob, found]
      dsimp only
      rw [Table.get?_erase]
      simp only [eq_comm]
  refused := fun _ _ _ => answer_eq_error

/-- **A store accounts for its calls**, whatever these are, as long as jobs of different names have
different uids. -/
theorem accountable (calls : List (Instant × StoreCall)) (distinct : (serve calls).1.Distinct) :
    (serve calls).2.Accountable (serve calls).1 :=
  (served_serve calls).accounts distinct

/-- A job that is submitted twice, written, given a worker, and written again with an old version,
while another one is deleted and submitted again. -/
def busy : List (Instant × StoreCall) :=
  let bell : Job :=
    { name := "bell", uid := .ofNat 1, resourceVersion := 0, createdAt := .ofSecond 0,
      spec := { workerImage := "aer:0.15", circuits := "[]" } }
  let chime : Job := { bell with name := "chime", uid := .ofNat 2 }
  [.createJob bell, .createJob chime, .createJob { bell with uid := .ofNat 3 },
    .updateStatus { bell with resourceVersion := 1, status := { phase := .pending } },
    .createWorker ⟨"striker", ⟨"bell", .ofNat 1⟩, { image := "aer:0.15" }⟩,
    .createWorker ⟨"clapper", ⟨"chime", .ofNat 2⟩, { image := "aer:0.15" }⟩,
    .updateStatus { bell with resourceVersion := 1, status := { phase := .running } },
    .deleteJob "chime", .createJob { chime with uid := .ofNat 4 }].map (.ofSecond 1, ·)

theorem accountable_busy : (serve busy).1.Distinct ∧ (serve busy).2.Accountable (serve busy).1 ∧
    (serve busy).2.workers.keys = ["striker"] ∧
    (serve busy).2.jobs.values.map (fun job => (job.name, job.uid, job.resourceVersion)) =
      [("bell", .ofNat 1, 2), ("chime", .ofNat 4, 1)] := by
  have hdistinct : (serve busy).1.Distinct :=
    StoreTranscript.distinct_of_created (by decide +kernel)
  exact ⟨hdistinct, accountable busy hdistinct, by decide +kernel, by decide +kernel⟩

end MemoryStore

end JobOperator
