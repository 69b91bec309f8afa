import JobOperator.Lifecycle.Step

/-!
# What a step makes of a status

* `Job.Transition`: the ten things that a step can make of a status, each with its
  condition; `Job.step_transition` says that there are no others. Everything else that
  is known of a step is read off from it.
* `Job.Lawful`: the **status invariant**: which of its parts a status has in which
  phase. A step keeps it (`Job.Lawful.transition`).
* `Job.Phase.Edge`: the ways from one phase to the next.

A lawful job that runs names its worker only because a step into running is taken upon
seeing the worker that the job names, which is why the invariant is kept for steps
whose observation is of that worker.
-/

namespace JobOperator.Job

/-- What a step can make of the status of a job, and what it does to a worker. -/
inductive Transition (job : Job) (seen : Observation) (now : Instant) :
    Status → Effect → Prop where
  /-- the time is up -/
  | timedOut (late : job.pastDeadline now) :
      Transition job seen now (job.status.fail job.timeoutMessage now) .none
  /-- the job starts -/
  | started (phase : job.status.phase = .unstarted) :
      Transition job seen now { job.status with
        phase := .pending, startTime := job.status.startTime.or (some now), retries := 0 } .none
  /-- the worker of the current attempt is asked for -/
  | asked (phase : job.status.phase = .pending) (missing : seen = .missing) :
      Transition job seen now { job.status with workerRef := some (Worker.nameOf job) } .create
  /-- the worker is there -/
  | met (phase : job.status.phase = .pending) (p : Worker.Phase) (found : seen = .found p) :
      Transition job seen now { job.status with phase := .running } .none
  /-- the worker is gone -/
  | vanished (phase : job.status.phase = .running) (missing : seen = .missing) :
      Transition job seen now { job.status with phase := .pending, workerRef := none } .none
  /-- the worker goes on -/
  | waited (phase : job.status.phase = .running) (p : Worker.Phase) (found : seen = .found p) :
      Transition job seen now job.status .none
  /-- the worker has succeeded -/
  | succeeded (phase : job.status.phase = .running) (found : seen = .found .succeeded) :
      Transition job seen now { job.status with
        phase := .completed, completionTime := some now, workerRef := none } .none
  /-- the worker has failed, and there is another attempt -/
  | retried (phase : job.status.phase = .running) (found : seen = .found .failed)
      (left : job.status.retries < job.spec.maxRetries) :
      Transition job seen now { job.status with
        phase := .pending, retries := job.status.retries + 1, workerRef := none }
        (.delete (job.status.workerRef.getD (Worker.nameOf job)))
  /-- the worker has failed, and that was the last attempt -/
  | exhausted (phase : job.status.phase = .running) (found : seen = .found .failed)
      (spent : ¬ job.status.retries < job.spec.maxRetries) :
      Transition job seen now (job.status.fail job.exhaustedMessage now) .none
  /-- the job has finished -/
  | finished (terminal : job.status.phase.terminal) : Transition job seen now job.status .none

/-- A step of a job that is not past its deadline is one of the transitions. -/
theorem advance_transition (job : Job) (seen : Observation) (now : Instant) (pacing : Pacing) :
    job.Transition seen now (job.advance seen now pacing).status
      (job.advance seen now pacing).effect := by
  unfold advance
  dsimp only
  split
  · next hp => exact .started hp
  · next hp => exact .asked hp rfl
  · next p hp => exact .met hp p rfl
  · next hp => exact .vanished hp rfl
  · next hp => exact .waited hp _ rfl
  · next hp => exact .waited hp _ rfl
  · next hp => exact .succeeded hp rfl
  · next hp =>
    by_cases hleft : job.canRetry
    · rw [if_pos hleft]
      exact .retried hp rfl (by simpa [canRetry] using hleft)
    · rw [if_neg hleft]
      exact .exhausted hp rfl (by simpa [canRetry] using hleft)
  · next hp => exact .finished (by rw [hp]; rfl)
  · next hp => exact .finished (by rw [hp]; rfl)

/-- Every step is one of the transitions. -/
theorem step_transition (job : Job) (seen : Observation) (now : Instant) (pacing : Pacing) :
    job.Transition seen now (job.step seen now pacing).status
      (job.step seen now pacing).effect := by
  unfold step
  by_cases hlate : job.pastDeadline now
  · rw [if_pos hlate]
    exact .timedOut hlate
  · rw [if_neg hlate]
    exact advance_transition job seen now pacing

/-- A job that is past its deadline has not finished. -/
theorem terminal_of_pastDeadline {job : Job} {now : Instant} (late : job.pastDeadline now) :
    job.status.phase.terminal = false := by
  unfold pastDeadline at late
  simpa using (Bool.and_eq_true_iff.mp late).1

/-- The deadline of a job that has not finished depends on nothing but its start. -/
theorem pastDeadline_eq {job next : Job} {now : Instant} (alive : job.status.phase.terminal = false)
    (alive' : next.status.phase.terminal = false) (spec : next.spec = job.spec)
    (start : next.status.startTime = job.status.startTime) :
    next.pastDeadline now = job.pastDeadline now := by
  unfold pastDeadline
  rw [alive, alive', spec, start]

/-- A job that is past its deadline has been started. -/
theorem startTime_of_pastDeadline {job : Job} {now : Instant} (late : job.pastDeadline now) :
    job.status.startTime.isSome := by
  unfold pastDeadline at late
  cases h : job.status.startTime with
  | none => simp [h] at late
  | some _ => rfl

/-- Counting up what is below a bound does not overflow. -/
theorem toNat_succ_of_lt {n max : UInt32} (h : n < max) : (n + 1).toNat = n.toNat + 1 := by
  have := max.toNat_lt
  rw [UInt32.lt_iff_toNat_lt] at h
  rw [UInt32.toNat_add]
  simp only [UInt32.reduceToNat]
  omega

/-! ## The status invariant -/

/-- Which parts a status has in which phase. -/
structure Lawful (job : Job) : Prop where
  /-- a job has a time of completion when it has finished -/
  completed : job.status.completionTime.isSome ↔
    job.status.phase = .completed ∨ job.status.phase = .failed
  /-- a message is recorded of a failed job -/
  failed : job.status.errorMessage.isSome ↔ job.status.phase = .failed
  /-- a job has a start time once it has been looked at -/
  started : job.status.startTime.isSome ↔ job.status.phase ≠ .unstarted
  /-- only a job that waits or runs names a worker -/
  refs : job.status.workerRef.isSome → job.status.phase = .pending ∨ job.status.phase = .running
  /-- a job that runs names its worker -/
  running : job.status.phase = .running → job.status.workerRef.isSome
  /-- the worker that a job names is the one of its current attempt -/
  named : ∀ worker, job.status.workerRef = some worker → worker = Worker.nameOf job
  /-- no more failures are absorbed than the job allows -/
  within : job.status.retries ≤ job.spec.maxRetries
  /-- a job that has not been looked at has failed no attempt -/
  fresh : job.status.phase = .unstarted → job.status.retries = 0

/-- If a job names a worker at all, it is the one of its current attempt. -/
theorem Lawful.getD_workerRef {job : Job} (h : job.Lawful) :
    job.status.workerRef.getD (Worker.nameOf job) = Worker.nameOf job := by
  cases href : job.status.workerRef with
  | none => rfl
  | some worker => exact h.named worker href

/-- A job that has just been submitted is lawful. -/
theorem Lawful.submitted {job : Job} (h : job.status = {}) : job.Lawful := by
  constructor <;> simp [h]

/-- A step keeps the invariant, if what is seen is the worker that the job names. -/
theorem Lawful.transition {job next : Job} {seen : Observation} {now : Instant}
    {effect : Effect}
    (h : job.Lawful) (ht : job.Transition seen now next.status effect)
    (hseen : ∀ p, seen = .found p → job.status.workerRef.isSome)
    (hname : next.name = job.name) (hspec : next.spec = job.spec) : next.Lawful := by
  have hc := h.completed
  have hf := h.failed
  have hs := h.started
  have hr := h.refs
  have hn := h.named
  have hw := h.within
  obtain ⟨name, uid, version, createdAt, spec, s'⟩ := next
  dsimp only at ht hname hspec
  subst hname hspec
  cases ht with
  | timedOut late =>
    have hst := startTime_of_pastDeadline late
    constructor <;> simp_all [Status.fail]
  | started hp => constructor <;> simp_all [Worker.nameOf]
  | asked hp _ => constructor <;> simp_all [Worker.nameOf]
  | met hp p hfound =>
    have hsome := hseen p hfound
    constructor <;> simp_all [Worker.nameOf]
  | vanished hp _ => constructor <;> simp_all
  | waited hp => exact ⟨hc, hf, hs, hr, h.running, hn, hw, h.fresh⟩
  | succeeded hp _ => constructor <;> simp_all
  | retried hp _ left =>
    have hle : job.status.retries + 1 ≤ job.spec.maxRetries := by
      rw [UInt32.le_iff_toNat_le, toNat_succ_of_lt left]
      exact UInt32.lt_iff_toNat_lt.mp left
    constructor <;> simp_all
  | exhausted hp _ _ => constructor <;> simp_all [Status.fail]
  | finished _ => exact ⟨hc, hf, hs, hr, h.running, hn, hw, h.fresh⟩

/-! ## What a step changes -/

/-- The ways from a phase to the next. -/
inductive Phase.Edge : Phase → Phase → Prop where
  | stay (p : Phase) : Edge p p
  | start : Edge .unstarted .pending
  | run : Edge .pending .running
  | back : Edge .running .pending
  | complete : Edge .running .completed
  | fail {p : Phase} (alive : p.terminal = false) : Edge p .failed

/-- A step takes at most one of the ways between phases. -/
theorem Transition.edge {job : Job} {seen : Observation} {now : Instant} {s : Status}
    {effect : Effect} (ht : job.Transition seen now s effect) : job.status.phase.Edge s.phase := by
  cases ht with
  | timedOut late => exact .fail (terminal_of_pastDeadline late)
  | started hp => rw [hp]; exact .start
  | asked => exact .stay _
  | met hp => rw [hp]; exact .run
  | vanished hp => rw [hp]; exact .back
  | waited => exact .stay _
  | succeeded hp => rw [hp]; exact .complete
  | retried hp => rw [hp]; exact .back
  | exhausted hp => rw [hp]; exact .fail rfl
  | finished => exact .stay _

/-- A worker is asked for only by a job that waits for one. -/
theorem Transition.of_create {job : Job} {seen : Observation} {now : Instant} {s : Status}
    (ht : job.Transition seen now s .create) :
    job.status.phase = .pending ∧ seen = .missing := by
  cases ht with
  | asked hp hm => exact ⟨hp, hm⟩

/-- Whoever asks for a worker records its name, and nothing else. -/
theorem Transition.eq_of_create {job : Job} {seen : Observation} {now : Instant} {s : Status}
    (ht : job.Transition seen now s .create) :
    s = { job.status with workerRef := some (Worker.nameOf job) } := by
  cases ht with
  | asked => rfl

/-- Only a failed worker is deleted, and only for another attempt. -/
theorem Transition.of_delete {job : Job} {seen : Observation} {now : Instant} {s : Status}
    {worker : String} (ht : job.Transition seen now s (.delete worker)) :
    job.status.phase = .running ∧ job.status.retries < job.spec.maxRetries ∧
      worker = job.status.workerRef.getD (Worker.nameOf job) ∧
      s = { job.status with
        phase := .pending, retries := job.status.retries + 1, workerRef := none } := by
  cases ht with
  | retried hp _ left => exact ⟨hp, left, rfl, rfl⟩

/-- A step that deletes a worker changes the status. -/
theorem Transition.ne_of_delete {job : Job} {seen : Observation} {now : Instant} {s : Status}
    {worker : String} (ht : job.Transition seen now s (.delete worker)) : s ≠ job.status := by
  cases ht with
  | retried hp =>
    intro heq
    have := congrArg Status.phase heq
    rw [hp] at this
    cases this

/-- No step takes back a failed attempt. -/
theorem Transition.retries_le {job : Job} {seen : Observation} {now : Instant} {s : Status}
    {effect : Effect} (ht : job.Transition seen now s effect) (h : job.Lawful) :
    job.status.retries ≤ s.retries := by
  cases ht with
  | started hp =>
    rw [h.fresh hp]
    exact UInt32.le_refl 0
  | retried _ _ left =>
    rw [UInt32.le_iff_toNat_le, toNat_succ_of_lt left]
    exact Nat.le_succ _
  | _ => exact UInt32.le_refl _

/-- A job that waits spends no retry. -/
theorem Transition.retries_of_pending {job : Job} {seen : Observation} {now : Instant} {s : Status}
    {effect : Effect} (ht : job.Transition seen now s effect) (hp : job.status.phase = .pending) :
    s.retries = job.status.retries := by
  cases ht with
  | started h | retried h =>
    rw [hp] at h
    cases h
  | _ => rfl

/-- No step changes the start of a job that has been started. -/
theorem Transition.startTime {job : Job} {seen : Observation} {now t : Instant} {s : Status}
    {effect : Effect} (ht : job.Transition seen now s effect)
    (h : job.status.startTime = some t) : s.startTime = some t := by
  cases ht with
  | started hp => simp [h]
  | _ => exact h

/-- A status names a worker that has been asked for, or one that was named before and is
there. -/
theorem Transition.workerRef {job : Job} {seen : Observation} {now : Instant} {s : Status}
    {effect : Effect} (ht : job.Transition seen now s effect) (h : job.Lawful)
    (alive : job.status.phase.terminal = false) {worker : String}
    (href : s.workerRef = some worker) :
    (effect = .create ∧ worker = Worker.nameOf job) ∨
      job.status.workerRef = some worker ∧ ∃ p, seen = .found p := by
  cases ht with
  | started hp =>
    have hsome : job.status.workerRef.isSome := Option.isSome_iff_exists.mpr ⟨worker, href⟩
    rcases h.refs hsome with hpending | hrunning
    · rw [hp] at hpending
      cases hpending
    · rw [hp] at hrunning
      cases hrunning
  | asked => exact .inl ⟨rfl, (Option.some.inj href).symm⟩
  | met _ p found | waited _ p found => exact .inr ⟨href, p, found⟩
  | finished terminal =>
    rw [terminal] at alive
    cases alive
  | timedOut | vanished | succeeded | retried | exhausted => cases href

/-- A step after which a job runs has seen its worker, and changes nothing but the phase. -/
theorem step_running {job : Job} {seen : Observation} {now : Instant} {pacing : Pacing}
    (h : (job.step seen now pacing).status.phase = .running) :
    ((job.status.phase = .pending ∧ job.pastDeadline now = false) ∨ job.status.phase = .running) ∧
      (∃ p, seen = .found p) ∧ (job.step seen now pacing).effect = .none ∧
      (job.step seen now pacing).status = { job.status with phase := .running } := by
  have hlate : job.pastDeadline now = false := Bool.eq_false_iff.mpr fun hlate => by
    unfold step at h
    rw [if_pos hlate] at h
    cases h
  have ht := job.step_transition seen now pacing
  generalize (job.step seen now pacing).effect = effect at ht ⊢
  generalize (job.step seen now pacing).status = s at h ht ⊢
  cases ht with
  | timedOut | started | vanished | succeeded | retried | exhausted => cases h
  | asked hphase =>
    rw [hphase] at h
    cases h
  | met hphase p found => exact ⟨.inl ⟨hphase, hlate⟩, ⟨p, found⟩, rfl, rfl⟩
  | waited hphase p found =>
    refine ⟨.inr hphase, ⟨p, found⟩, rfl, ?_⟩
    rw [← hphase]
  | finished terminal =>
    rw [h] at terminal
    cases terminal

end JobOperator.Job
