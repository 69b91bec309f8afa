import JobOperator.Lifecycle.Reconcile
import JobOperator.Proofs.Lifecycle.Status
import JobOperator.Proofs.Store.Consistent

/-!
# What a visit leaves behind

* `Reconciler.visited`: what a calm visit makes of a store, as a function of the store, with no
  script in it.
* `Reconciler.Residue`: what a visit leaves behind that is disturbed, **wherever this happens**.
  There are six kinds: nothing is done; some of the workers that are in the way are gone; the
  worker is there and the status not written; the status is written and the worker is not
  there, be it that it was taken back or that it is still to be deleted; or all is done.

That this is what comes out of the script of an invocation is shown elsewhere. Here are the steps
of which it consists, and what is in the store after each of them.
-/

namespace JobOperator

/-- The record after another status has been written. -/
def Job.recorded (job : Job) (status : Job.Status) : Job :=
  { job with status, resourceVersion := job.resourceVersion + 1 }

namespace MemoryStore

variable {m : MemoryStore} {job : Job}

/-- The store without workers of these names. -/
def without (m : MemoryStore) (gone : List String) : MemoryStore :=
  { m with workers := m.workers.filter fun n _ => n ∉ gone }

/-- The store after the status of a job has been written. -/
def record (m : MemoryStore) (job : Job) (status : Job.Status) : MemoryStore :=
  { m with jobs := m.jobs.insert job.name (job.recorded status) }

/-- The names of the workers of a job. -/
def workersOf (m : MemoryStore) (name : String) : List String :=
  (m.listWorkers (some name)).map (·.name)

/-- The names of the workers of attempts that a job has moved past. -/
def supersededBy (m : MemoryStore) (job : Job) : List String :=
  ((m.listWorkers (some job.name)).filter (Reconciler.superseded job)).map (·.name)

/-- What is seen of the worker that a job names. -/
def sight (m : MemoryStore) (job : Job) : Observation :=
  match job.status.workerRef with
  | none => .missing
  | some name =>
    match m.workers.get? name with
    | none => .missing
    | some worker => .found worker.phase

/-- The store after the status of a step is written, which happens if there is anything to
write or a worker to be kept. -/
def updated (m : MemoryStore) (job : Job) (step : Step) (created : Option String) : MemoryStore :=
  if created.isSome || step.status ≠ job.status then m.record job step.status else m

/-- The store after what a step does to a worker once the status is written. -/
def relieved (m : MemoryStore) : Effect → MemoryStore
  | .delete name => m.without [name]
  | .create | .none => m

/-- The store after housekeeping for a finished job. -/
def wrappedUp (m : MemoryStore) (job : Job) (now : Instant) : MemoryStore :=
  let cleared := m.without (m.workersOf job.name)
  if job.retention now = .expired then (cleared.deleteJob job.name).2 else cleared

theorem eq_of_get? {m' : MemoryStore} (jobs : m.jobs = m'.jobs)
    (workers : ∀ n, m.workers.get? n = m'.workers.get? n) : m = m' := by
  have hworkers : m.workers = m'.workers := Table.ext workers
  cases m
  cases m'
  cases jobs
  cases hworkers
  rfl

@[simp] theorem get?_record (m : MemoryStore) (job : Job) (status : Job.Status) :
    (m.record job status).jobs.get? job.name = some (job.recorded status) :=
  Table.get?_insert_self ..

theorem get?_without (m : MemoryStore) (gone : List String) (n : String) :
    (m.without gone).workers.get? n = if n ∈ gone then none else m.workers.get? n := by
  unfold without
  rw [Table.get?_filter]
  by_cases h : n ∈ gone
  · cases m.workers.get? n <;> simp [h]
  · cases m.workers.get? n <;> simp [h]

@[simp] theorem without_nil (m : MemoryStore) : m.without [] = m :=
  eq_of_get? rfl fun n => by rw [get?_without, if_neg List.not_mem_nil]

theorem without_without (m : MemoryStore) (gone gone' : List String) :
    (m.without gone).without gone' = m.without (gone ++ gone') := by
  refine eq_of_get? rfl fun n => ?_
  rw [get?_without, get?_without, get?_without]
  by_cases h : n ∈ gone <;> by_cases h' : n ∈ gone' <;> simp [h, h']

/-- To delete a worker that is not there changes nothing. -/
theorem without_eq_self {gone : List String} (h : ∀ n ∈ gone, m.workers.get? n = none) :
    m.without gone = m := by
  refine eq_of_get? rfl fun n => ?_
  rw [get?_without]
  split
  · next hn => exact (h n hn).symm
  · rfl

theorem deleteWorker_eq (m : MemoryStore) (name : String) :
    (m.deleteWorker name).2 = m.without [name] := by
  unfold deleteWorker
  split
  · refine eq_of_get? rfl fun n => ?_
    rw [get?_without, Table.get?_erase]
    simp only [List.mem_singleton, eq_comm]
  · next hfree =>
    refine (without_eq_self fun n hn => ?_).symm
    obtain rfl := List.mem_singleton.mp hn
    exact get?_eq_none_of_not_contains hfree

theorem answer_getJob {name : String} {clock : Instant} (found : m.jobs.get? name = some job) :
    m.answer clock (.getJob name) = (.ok job, m) := by
  rw [answer, getJob_eq_ok.mpr found]

/-- The workers of a job are those that name it as their owner, if every worker lies under its
name. -/
theorem mem_workersOf (named : ∀ n worker, m.workers.get? n = some worker → worker.name = n)
    {name n : String} : n ∈ m.workersOf name ↔
      ∃ worker, m.workers.get? n = some worker ∧ worker.owner.name = name := by
  rw [workersOf, List.mem_map]
  constructor
  · rintro ⟨worker, hmem, rfl⟩
    obtain ⟨howner, n, hn⟩ := mem_listWorkers hmem
    rw [named n worker hn]
    exact ⟨worker, hn, howner⟩
  · rintro ⟨worker, hn, howner⟩
    refine ⟨worker, List.mem_filter.mpr ⟨?_, by simpa using howner⟩, named n worker hn⟩
    exact List.mem_map.mpr ⟨(n, worker), Table.mem_toList_iff.mpr hn, rfl⟩

/-- The record of the owner of a worker that is to be created is there. -/
def Owns (m : MemoryStore) (launch : Worker.Launch) : Prop :=
  (m.jobs.get? launch.owner.name).any fun job => job.uid = launch.owner.uid

theorem deleteJob_eq {name : String} (found : m.jobs.get? name = some job) :
    m.deleteJob name = (.ok (), (m.deleteJob name).2) := by
  unfold deleteJob
  rw [found]

theorem deleteJob_found (found : m.jobs.get? job.name = some job) :
    (m.deleteJob job.name).2 = {
      jobs := m.jobs.erase job.name
      workers := m.workers.filter fun _ w => w.owner.uid ≠ job.uid } := by
  rw [deleteJob, found]

theorem get?_deleteJob (m : MemoryStore) (name : String) :
    (m.deleteJob name).2.jobs.get? name = none := by
  unfold deleteJob
  split
  · assumption
  · exact (Table.get?_erase ..).trans (if_pos rfl)

theorem createWorker_free {clock : Instant} {launch : Worker.Launch} (owned : m.Owns launch)
    (free : m.workers.get? launch.name = none) :
    m.createWorker clock launch = (.ok (launch.toWorker clock),
      { m with workers := m.workers.insert launch.name (launch.toWorker clock) }) := by
  have hfree : ¬ m.workers.contains launch.name := by simp [Table.contains, free]
  unfold Owns at owned
  unfold createWorker
  rw [if_pos owned, if_neg hfree]

theorem createWorker_taken {clock : Instant} {launch : Worker.Launch} (owned : m.Owns launch)
    (taken : (m.workers.get? launch.name).isSome) :
    m.createWorker clock launch = (.error (.alreadyExists .worker launch.name), m) := by
  unfold Owns at owned
  unfold createWorker
  rw [if_pos owned]
  exact if_pos taken

theorem createWorker_jobs (m : MemoryStore) (clock : Instant) (launch : Worker.Launch) :
    (m.createWorker clock launch).2.jobs = m.jobs := by
  unfold createWorker
  split
  · split <;> rfl
  · rfl

/-- A worker that has been created can be taken back. -/
theorem without_createWorker {clock : Instant} {launch : Worker.Launch} (owned : m.Owns launch)
    (free : m.workers.get? launch.name = none) :
    (m.createWorker clock launch).2.without [launch.name] = m := by
  rw [createWorker_free owned free]
  refine eq_of_get? rfl fun n => ?_
  rw [get?_without]
  dsimp only
  rw [Table.get?_insert]
  by_cases h : n = launch.name
  · simp [h, free]
  · simp [h, Ne.symm h]

theorem sight_of_unnamed (h : job.status.workerRef = none) : m.sight job = .missing := by
  unfold sight
  rw [h]

theorem sight_of_named {ref : String} (h : job.status.workerRef = some ref) {worker : Worker}
    (there : m.workers.get? ref = some worker) : m.sight job = .found worker.phase := by
  unfold sight
  rw [h]
  dsimp only
  rw [there]

theorem sight_of_gone {ref : String} (h : job.status.workerRef = some ref)
    (gone : m.workers.get? ref = none) : m.sight job = .missing := by
  unfold sight
  rw [h]
  dsimp only
  rw [gone]

theorem sight_of_absent (lawful : job.Lawful)
    (free : m.workers.get? (Worker.nameOf job) = none) : m.sight job = .missing := by
  cases href : job.status.workerRef with
  | none => exact sight_of_unnamed href
  | some ref =>
    rw [← lawful.named ref href] at free
    exact sight_of_gone href free

/-- Who sees a worker sees the one that the job names. -/
theorem found_of_sight {p : Worker.Phase} (h : m.sight job = .found p) :
    ∃ ref worker, job.status.workerRef = some ref ∧ m.workers.get? ref = some worker ∧
      worker.phase = p := by
  unfold sight at h
  split at h
  · cases h
  · next ref href =>
    split at h
    · cases h
    · next worker hworker => exact ⟨ref, worker, href, hworker, Observation.found.inj h⟩

theorem updated_workers (m : MemoryStore) (job : Job) (step : Step)
    (created : Option String) : (m.updated job step created).workers = m.workers := by
  unfold updated
  split <;> rfl

theorem relieved_jobs (m : MemoryStore) (effect : Effect) :
    (m.relieved effect).jobs = m.jobs := by
  cases effect <;> rfl

/-- Reading the record and writing it leave it the same but for its status. -/
theorem updateStatus_eq (found : m.jobs.get? job.name = some job) (status : Job.Status) :
    m.updateStatus { job with status } =
      (.ok (job.recorded status), m.record job status) := by
  unfold updateStatus
  dsimp only
  rw [found]
  dsimp only
  rw [if_pos ⟨rfl, rfl⟩]
  rfl

end MemoryStore

/-- The job waits for a worker, and there is time. -/
def Job.Waits (job : Job) (now : Instant) : Prop :=
  job.status.phase = .pending ∧ job.pastDeadline now = false

instance (job : Job) (now : Instant) : Decidable (job.Waits now) :=
  inferInstanceAs (Decidable (_ ∧ _))

/-- A job that waits has not finished. -/
theorem Job.Waits.alive {job : Job} {now : Instant} (h : job.Waits now) :
    job.status.phase.terminal = false := by
  rw [h.1]
  rfl

/-- What is seen does not matter to a job that is past its deadline. -/
theorem Job.step_of_late {job : Job} {now : Instant} (late : job.pastDeadline now)
    (seen seen' : Observation) (pacing : Pacing) :
    job.step seen now pacing = job.step seen' now pacing := by
  unfold step
  rw [if_pos late, if_pos late]

namespace MemoryStore

/-- The store in which an invocation looks at the worker of a job. -/
def readied (m : MemoryStore) (job : Job) (now : Instant) : MemoryStore :=
  if job.Waits now then m.without (m.supersededBy job) else m

theorem readied_jobs (m : MemoryStore) (job : Job) (now : Instant) :
    (m.readied job now).jobs = m.jobs := by
  unfold readied
  split <;> rfl

variable {m : MemoryStore} {job : Job} {now : Instant}

theorem found_readied (found : m.jobs.get? job.name = some job) (now : Instant) :
    (m.readied job now).jobs.get? job.name = some job := by
  rw [readied_jobs]
  exact found

theorem readied_of_waits (h : job.Waits now) :
    m.readied job now = m.without (m.supersededBy job) := if_pos h

theorem readied_of_not_waits (h : ¬ job.Waits now) : m.readied job now = m := if_neg h

theorem readied_of_not_pending (h : job.status.phase ≠ .pending) : m.readied job now = m :=
  readied_of_not_waits fun hwaits => h hwaits.1

/-- Nothing is created by a sweep. -/
theorem get?_of_readied {n : String} {worker : Worker}
    (h : (m.readied job now).workers.get? n = some worker) : m.workers.get? n = some worker := by
  unfold readied at h
  split at h
  · rw [get?_without] at h
    split at h
    · cases h
    · exact h
  · exact h

theorem wrappedUp_of_expired (h : job.retention now = .expired) :
    m.wrappedUp job now = ((m.without (m.workersOf job.name)).deleteJob job.name).2 := if_pos h

theorem wrappedUp_of_kept (h : job.retention now ≠ .expired) :
    m.wrappedUp job now = m.without (m.workersOf job.name) := if_neg h

end MemoryStore

namespace Reconciler

variable (r : Reconciler) (now clock : Instant) (m : MemoryStore) (job : Job)

/-- The step of a job whose worker is looked up in a store. -/
def stepIn : Step := job.step (m.sight job) now r.pacing

/-- The store after the worker of the current attempt was asked for. -/
def supplied : MemoryStore := (m.createWorker clock (r.template.launch job)).2

/-- The store after a step. -/
def carriedOut (step : Step) : MemoryStore :=
  match step.effect with
  | .create => (r.supplied clock m job).record job step.status
  | effect => (m.updated job step none).relieved effect

/-- The store after a calm visit, if it holds the job. -/
def handled : MemoryStore :=
  if job.status.phase.terminal then m.wrappedUp job now
  else r.carriedOut clock (m.readied job now) job (r.stepIn now (m.readied job now) job)

/-- What a calm visit directs, if the store holds the job. -/
def directed : Requeue :=
  if job.status.phase.terminal then (job.retention now).requeue now
  else (r.stepIn now (m.readied job now) job).requeue

/-- What a disturbed visit leaves behind, if the store holds the job. -/
inductive Residue : MemoryStore → Prop where
  | untouched : Residue m
  /-- some workers of earlier attempts are deleted -/
  | swept {gone : List String} (waits : job.Waits now) (old : gone ⊆ m.supersededBy job) :
      Residue (m.without gone)
  /-- some workers of the finished job are deleted -/
  | cleared {gone : List String} (terminal : job.status.phase.terminal)
      (old : gone ⊆ m.workersOf job.name) : Residue (m.without gone)
  /-- the worker is there, but nobody has said so -/
  | supplied (alive : job.status.phase.terminal = false)
      (effect : (r.stepIn now (m.readied job now) job).effect = .create) :
      Residue (r.supplied clock (m.readied job now) job)
  /-- the status is written, and no worker was created or deleted -/
  | recorded (alive : job.status.phase.terminal = false)
      (changed : (r.stepIn now (m.readied job now) job).effect = .create ∨
        (r.stepIn now (m.readied job now) job).status ≠ job.status) :
      Residue ((m.readied job now).record job (r.stepIn now (m.readied job now) job).status)
  | completed : Residue (r.handled now clock m job)

/-- The store after a calm visit for the job of a name. -/
def visited (name : String) : MemoryStore :=
  match m.jobs.get? name with
  | none => m
  | some job => r.handled now clock m job

variable {r now clock m job} {name : String}

theorem Residue.readied : r.Residue now clock m job (m.readied job now) := by
  unfold MemoryStore.readied
  split
  · next hw => exact .swept hw fun _ h => h
  · exact .untouched

theorem handled_of_terminal (h : job.status.phase.terminal) :
    r.handled now clock m job = m.wrappedUp job now := if_pos h

theorem handled_of_alive (h : job.status.phase.terminal = false) :
    r.handled now clock m job =
      r.carriedOut clock (m.readied job now) job (r.stepIn now (m.readied job now) job) :=
  if_neg (by rw [h]; exact nofun)

theorem directed_of_terminal (h : job.status.phase.terminal) :
    r.directed now m job = (job.retention now).requeue now := if_pos h

theorem directed_of_alive (h : job.status.phase.terminal = false) :
    r.directed now m job = (r.stepIn now (m.readied job now) job).requeue :=
  if_neg (by rw [h]; exact nofun)

theorem carriedOut_of_create {step : Step} (h : step.effect = .create) :
    r.carriedOut clock m job step = (r.supplied clock m job).record job step.status := by
  unfold carriedOut
  rw [h]

theorem carriedOut_of_ne_create {step : Step} (h : step.effect ≠ .create) :
    r.carriedOut clock m job step = (m.updated job step none).relieved step.effect := by
  unfold carriedOut
  split
  · next heffect => exact absurd heffect h
  · rfl

theorem visited_of_absent (absent : m.jobs.get? name = none) : r.visited now clock m name = m := by
  unfold visited
  rw [absent]

theorem visited_of_found (found : m.jobs.get? name = some job) :
    r.visited now clock m name = r.handled now clock m job := by
  unfold visited
  rw [found]

theorem visited_of_alive (found : m.jobs.get? job.name = some job)
    (alive : job.status.phase.terminal = false) :
    r.visited now clock m job.name =
      r.carriedOut clock (m.readied job now) job (r.stepIn now (m.readied job now) job) := by
  rw [visited_of_found found, handled_of_alive alive]

/-! ## Steps -/

theorem stepIn_onTime (onTime : job.pastDeadline now = false) :
    r.stepIn now m job = job.advance (m.sight job) now r.pacing :=
  if_neg (by rw [onTime]; exact nofun)

/-- Nothing is done to a worker if the time is up. -/
theorem onTime_of_effect (h : (r.stepIn now m job).effect ≠ .none) :
    job.pastDeadline now = false := by
  refine Bool.eq_false_iff.mpr fun hlate => h ?_
  unfold stepIn Job.step
  rw [if_pos hlate]

/-- A worker is asked for if there is time, and none is seen. -/
theorem stepIn_of_create (heffect : (r.stepIn now m job).effect = .create) :
    job.Waits now ∧ m.sight job = .missing ∧
      (r.stepIn now m job).status =
        { job.status with workerRef := some (Worker.nameOf job) } := by
  have honTime := onTime_of_effect (by rw [heffect]; exact nofun)
  have ht := job.step_transition (m.sight job) now r.pacing
  unfold stepIn at heffect ⊢
  rw [heffect] at ht
  exact ⟨⟨ht.of_create.1, honTime⟩, ht.of_create.2, ht.eq_of_create⟩

/-- A worker is deleted if there is time for another attempt. -/
theorem stepIn_of_delete {worker : String}
    (heffect : (r.stepIn now m job).effect = .delete worker) :
    job.pastDeadline now = false ∧ job.status.phase = .running ∧
      job.status.retries < job.spec.maxRetries ∧
      worker = job.status.workerRef.getD (Worker.nameOf job) ∧
      (r.stepIn now m job).status = { job.status with
        phase := .pending, retries := job.status.retries + 1, workerRef := none } := by
  have honTime := onTime_of_effect (by rw [heffect]; exact nofun)
  have ht := job.step_transition (m.sight job) now r.pacing
  unfold stepIn at heffect ⊢
  rw [heffect] at ht
  exact ⟨honTime, ht.of_delete⟩

theorem stepIn_of_missing (waits : job.Waits now) (hsight : m.sight job = .missing) :
    r.stepIn now m job =
      ⟨{ job.status with workerRef := some (Worker.nameOf job) }, .create, .now⟩ := by
  obtain ⟨hphase, hlate⟩ := waits
  unfold stepIn Job.step Job.advance
  simp only [hlate, Bool.false_eq_true, if_false, hphase, hsight]

theorem owns_of_found (found : m.jobs.get? job.name = some job) :
    m.Owns (r.template.launch job) := by
  show (m.jobs.get? job.name).any _ = true
  rw [found]
  exact decide_eq_true rfl

theorem found_supplied (found : m.jobs.get? job.name = some job) :
    (r.supplied clock m job).jobs.get? job.name = some job := by
  unfold supplied
  rw [MemoryStore.createWorker_jobs]
  exact found

/-- The worker of the current attempt is there once it has been asked for. -/
theorem get?_supplied (found : m.jobs.get? job.name = some job) (n : String) :
    (r.supplied clock m job).workers.get? n = if Worker.nameOf job = n then
      some ((m.workers.get? n).getD ((r.template.launch job).toWorker clock))
    else m.workers.get? n := by
  have howned := owns_of_found (r := r) found
  unfold supplied
  cases hw : m.workers.get? (Worker.nameOf job) with
  | none =>
    rw [MemoryStore.createWorker_free howned hw]
    dsimp only
    rw [Table.get?_insert]
    by_cases hn : Worker.nameOf job = n
    · subst hn
      rw [hw]
      rfl
    · rw [if_neg hn]
      exact if_neg hn
  | some worker =>
    rw [MemoryStore.createWorker_taken howned (Option.isSome_of_eq_some hw)]
    split
    · next hn =>
      subst hn
      rw [hw]
      rfl
    · rfl

theorem supplied_of_taken (found : m.jobs.get? job.name = some job)
    (taken : (m.workers.get? (Worker.nameOf job)).isSome) : r.supplied clock m job = m := by
  unfold supplied
  rw [MemoryStore.createWorker_taken (owns_of_found found) taken]

/-- The record of a job once it names its worker. -/
def naming (job : Job) : Job :=
  job.recorded { job.status with workerRef := some (Worker.nameOf job) }

theorem found_naming : (m.record job (naming job).status).jobs.get? job.name = some (naming job) :=
  m.get?_record ..

/-- It makes no difference which comes first, the worker or the status that names it. -/
theorem supplied_naming (found : m.jobs.get? job.name = some job)
    (free : m.workers.get? (Worker.nameOf job) = none) :
    r.supplied clock (m.record job (naming job).status) (naming job) =
      (r.supplied clock m job).record job (naming job).status := by
  have hlaunch : r.template.launch (naming job) = r.template.launch job := rfl
  have howned : (m.record job (naming job).status).Owns (r.template.launch (naming job)) :=
    owns_of_found found_naming
  unfold supplied
  rw [hlaunch] at howned ⊢
  rw [MemoryStore.createWorker_free howned free,
    MemoryStore.createWorker_free (owns_of_found found) free]
  rfl

theorem carriedOut_of_changed {step : Step} (hne : step.effect ≠ .create)
    (changed : step.status ≠ job.status) :
    r.carriedOut clock m job step = (m.record job step.status).relieved step.effect := by
  have hupdated : m.updated job step none = m.record job step.status :=
    if_pos (by simpa using changed)
  rw [carriedOut_of_ne_create hne, hupdated]

/-! ## What is found afterwards -/

/-- Housekeeping deletes the record of a job, or leaves it as it is. -/
theorem found_wrappedUp (found : m.jobs.get? job.name = some job) {next : Job}
    (h : (m.wrappedUp job now).jobs.get? job.name = some next) : next = job := by
  by_cases hexpired : job.retention now = .expired
  · rw [MemoryStore.wrappedUp_of_expired hexpired, MemoryStore.get?_deleteJob] at h
    cases h
  · rw [MemoryStore.wrappedUp_of_kept hexpired] at h
    exact Option.some.inj (h.symm.trans found)

/-- A step that does nothing to a worker leaves the record with the status that it has made, unless
there is nothing to write. -/
theorem found_updated (found : m.jobs.get? job.name = some job) {step : Step} {next : Job}
    (h : (m.updated job step none).jobs.get? job.name = some next) :
    next = job.recorded step.status ∨ next = job ∧ step.status = job.status := by
  unfold MemoryStore.updated at h
  split at h
  · rw [MemoryStore.get?_record] at h
    exact .inl (Option.some.inj h).symm
  · next hsame =>
    exact .inr ⟨Option.some.inj (h.symm.trans found), by simpa using hsame⟩

end Reconciler

end JobOperator
