import JobOperator.Proofs.Cluster.History
import JobOperator.Proofs.Worker.Name

/-!
# What a retry is spent for

A retry is recorded by an invocation that has seen the worker of the job failed. What it has
seen is gone when it writes, and the name that it has looked up may meanwhile have passed to
another incarnation of the job. The status is nevertheless accounted for:

* `Cluster.Gone`: an incarnation that is no longer stored never comes back.
* `Cluster.Run.attentive`: whoever looks up the worker that a job names sees a worker of the
  incarnation that it has read, **or this incarnation is gone** and nothing will be written.
* `Cluster.Run.accounted`: hence every attempt that a stored job has behind it had failed.
* `Cluster.retries_count_failures`: retries count failed workers and nothing else.

All this is about runs in which no call is answered from the past (`Cluster.Event.current`):
who looks up a worker in an old store may see the one of an earlier incarnation. An invocation
may still work from an old reading of the job, as any time may pass between two of its calls.
-/

namespace JobOperator

open Cluster

/-- Who sees a worker has looked up the one that the job names. -/
theorem Job.Sees.of_found {job : Job} {now : Instant} {log : StoreTranscript} {p : Worker.Phase}
    (h : job.Sees now log (.found p)) : ∃ n worker, job.status.workerRef = some n ∧
      ⟨.getWorker n, .ok worker⟩ ∈ log ∧ worker.phase = p := by
  cases h with
  | present named asked => exact ⟨_, _, named, asked, rfl⟩

/-- A step spends a retry upon a failed worker, and only then. -/
theorem Job.Transition.retries_cases {job : Job} {seen : Observation} {now : Instant}
    {s : Job.Status} {effect : Effect} (ht : job.Transition seen now s effect) (h : job.Lawful) :
    s.retries = job.status.retries ∨
      seen = .found .failed ∧ s.retries.toNat = job.status.retries.toNat + 1 := by
  cases ht with
  | retried _ found left => exact .inr ⟨found, Job.toNat_succ_of_lt left⟩
  | started hp => exact .inl (h.fresh hp).symm
  | _ => exact .inl rfl

namespace Cluster

/-- An event in which no call is answered from a store of the past. -/
def Event.current : Event → Prop
  | .turn _ _ (.stale _) => False
  | _ => True

instance : (e : Event) → Decidable e.current
  | .turn _ _ (.stale _) => isFalse id
  | .turn _ _ .answered | .turn _ _ (.refused _) | .turn _ _ (.unheard _) => isTrue trivial
  | .submit .. | .withdraw .. | .report .. | .lose .. | .start .. | .cut .. => isTrue trivial

/-- The worker of an attempt at this incarnation of a job has been stored as failed. -/
def AttemptFailed (c : Cluster) (job : Job) (k : UInt32) : Prop :=
  ∃ s ∈ c.stores, ∃ worker, s.workers.get? (Worker.nameFor job.name k) = some worker ∧
    worker.owner = ⟨job.name, job.uid⟩ ∧ worker.phase = .failed

/-- No record of the incarnation is stored. -/
def Gone (c : Cluster) (uid : Uid) : Prop :=
  ∀ name job, c.store.jobs.get? name = some job → job.uid ≠ uid

/-- An invocation that has looked up the worker that a job names has seen one of the job that it
has read, unless this one is gone. -/
def Attentive (c : Cluster) : Prop :=
  ∀ inv ∈ c.invocations, ∀ read n worker, Reconciler.HasRead inv.job inv.log read →
    ⟨.getWorker n, .ok worker⟩ ∈ inv.log →
    worker.owner = ⟨read.name, read.uid⟩ ∨ c.Gone read.uid

/-- Every attempt that a job has behind it has failed, and if it has failed itself and its time
was not up, so have all attempts that it was allowed. -/
structure Accounted (c : Cluster) (job : Job) : Prop where
  attempts : ∀ k < job.status.retries, c.AttemptFailed job k
  exhausted : job.status.phase = .failed →
    job.status.errorMessage = some job.timeoutMessage ∨
      job.status.retries = job.spec.maxRetries ∧ ∀ k ≤ job.spec.maxRetries, c.AttemptFailed job k

variable {t : Worker.Template} {c c' : Cluster} {e : Event} {inv : Invocation} {read job job' : Job}

/-! ## What is seen of a worker -/

/-- An incarnation that is gone stays gone, because its uid is not given out again. -/
theorem Sound.gone_next (h : Sound t c) (hstep : c.next t e = some c') {uid : Uid}
    (hissued : uid ∈ c.issued) (hgone : c.Gone uid) : c'.Gone uid := by
  intro name job' hjob' huid
  cases h.arrives hstep hjob' with
  | kept found => exact hgone name job' found huid
  | born _ _ fresh _ _ outcome =>
    refine absurd hissued ?_
    rw [← huid, outcome]
    exact fresh
  | written _ _ found write _ _ => exact hgone name _ found (write.sameIdentity.uid.symm.trans huid)

/-- A worker of the name that a job records belongs to the job, if this incarnation is stored. -/
theorem Sound.owner_of_named (h : Sound t c) (hread : c.Recorded read) {n : String}
    (href : read.status.workerRef = some n) {worker : Worker}
    (hw : c.store.workers.get? n = some worker) :
    worker.owner = ⟨read.name, read.uid⟩ ∨ c.Gone read.uid := by
  have hcons := h.consistent_now
  have hplaced := hcons.placed n worker hw
  obtain ⟨k, hk⟩ := hplaced.attempt
  obtain ⟨owner, howner, huid⟩ := hplaced.owned
  -- the name tells the job
  obtain ⟨hname, -⟩ := Worker.nameFor_inj (hk.symm.trans ((h.lawful read hread).named n href))
  rw [hname] at howner
  by_cases hsame : owner.uid = read.uid
  · left
    rw [← hname, ← hsame, huid]
  · right
    intro name job hjob hjobuid
    have hjobname := (h.same read job hread (.of_store hjob) hjobuid).name
    rw [← hcons.named name job hjob, hjobname, howner] at hjob
    exact hsame ((congrArg Job.uid (Option.some.inj hjob)).trans hjobuid)

/-- **Whoever looks up a worker sees the right one**, if nothing is answered from the past. -/
theorem Run.attentive (h : Run t Event.current c) : c.Attentive := by
  induction h with
  | start => exact fun inv hinv => absurd hinv List.not_mem_nil
  | @next c c' e before ok step ih =>
    have hs := before.sound
    have hkept : ∀ {read : Job} {worker : Worker}, c.Recorded read →
        worker.owner = ⟨read.name, read.uid⟩ ∨ c.Gone read.uid →
        worker.owner = ⟨read.name, read.uid⟩ ∨ c'.Gone read.uid := fun hrec hseen =>
      hseen.imp_right (hs.gone_next step (hs.issued _ hrec))
    intro inv' hinv' read n worker hread hasked
    rcases next_log_cases step hinv' with hnil | ⟨inv, hinv, hjob, hlog⟩ |
      ⟨i, clock, fate, inv, call, resume, reply, rfl, hinv, hrest, hmeet, rfl⟩
    · rw [hnil] at hasked
      exact absurd hasked List.not_mem_nil
    · rw [hjob, hlog] at hread
      rw [hlog] at hasked
      exact hkept (hs.read hinv hread).1 (ih inv hinv read n worker hread hasked)
    rcases List.mem_append.mp hasked with hasked | hasked
    · have hread := hread.of_append hasked
      exact hkept (hs.read hinv hread).1 (ih inv hinv read n worker hread hasked)
    · -- the worker is looked up by this very event, in the store as it is
      cases List.mem_singleton.mp hasked
      obtain ⟨read', hread', href⟩ := (hs.coherent inv hinv).rule hrest
      obtain rfl := (hread'.append _).unique hread
      have hrec := (hs.read hinv hread').1
      cases fate with
      | answered =>
        have hw : c.store.workers.get? n = some worker :=
          MemoryStore.getWorker_eq_ok.mp (Prod.mk.inj (Option.some.inj hmeet)).1
        exact hkept hrec (hs.owner_of_named hrec href hw)
      | stale => exact ok.elim
      | refused | unheard => cases (Prod.mk.inj (Option.some.inj hmeet)).1

/-! ## What a retry is spent for -/

theorem AttemptFailed.mono {k : UInt32} (h : c.AttemptFailed job k)
    (hstores : c.stores ⊆ c'.stores) : c'.AttemptFailed job k := by
  obtain ⟨s, hs, hworker⟩ := h
  exact ⟨s, hstores hs, hworker⟩

/-- An attempt is one at an incarnation. -/
theorem AttemptFailed.of_same {k : UInt32} (h : c.AttemptFailed job k)
    (hsame : job.SameIdentity job') : c.AttemptFailed job' k := by
  unfold AttemptFailed at h ⊢
  rwa [hsame.name, hsame.uid]

theorem Accounted.mono (h : c.Accounted job) (hstores : c.stores ⊆ c'.stores) :
    c'.Accounted job where
  attempts := fun k hk => (h.attempts k hk).mono hstores
  exhausted := fun hfailed => (h.exhausted hfailed).imp_right fun ⟨heq, hall⟩ =>
    ⟨heq, fun k hk => (hall k hk).mono hstores⟩

/-- The event is a turn of an invocation that has read the job, and has been told that the worker
of the current attempt has failed; and this worker was stored so. -/
structure FailureSeen (c : Cluster) (e : Event) (job : Job) : Prop where
  told : ∃ i clock fate inv worker, e = .turn i clock fate ∧ c.invocations[i]? = some inv ∧
    Reconciler.HasRead inv.job inv.log job ∧
    ⟨.getWorker (Worker.nameOf job), .ok worker⟩ ∈ inv.log ∧ worker.phase = .failed
  stored : c.AttemptFailed job job.status.retries

/-- An invocation that has just been answered was there before. -/
theorem before_turn {i : Nat} {clock : Instant} {fate : Fate} {call : StoreCall}
    {reply : call.Answer} {rest : StoreScript (Except ReconcileError Requeue)}
    (hstep : c.next t (.turn i clock fate) = some c')
    (after : c'.invocations[i]? = some (inv.hear call reply rest)) :
    ∃ old, c.invocations[i]? = some old ∧ old.job = inv.job ∧ old.log = inv.log := by
  obtain ⟨old, call', _, reply', _, hold, -, -, rfl⟩ := next_turn hstep
  have hlt : i < c.invocations.length := (List.getElem?_eq_some_iff.mp hold).1
  have heq := Option.some.inj ((List.getElem?_set_self hlt).symm.trans after)
  have hjob : (old.hear call' reply' _).job = (inv.hear call reply rest).job :=
    congrArg Invocation.job heq
  exact ⟨old, hold, hjob, (List.append_inj' (congrArg Invocation.log heq) rfl).1⟩

/-- Who writes a status upon a failed worker has seen the worker of this attempt failed. -/
theorem Run.failureSeen (h : Run t Event.current c) {i : Nat} {clock : Instant} {fate : Fate}
    {call : StoreCall} {reply : call.Answer}
    {rest : StoreScript (Except ReconcileError Requeue)}
    (hstep : c.next t (.turn i clock fate) = some c')
    (after : c'.invocations[i]? = some (inv.hear call reply rest))
    (hread : Reconciler.HasRead inv.job inv.log job) {name : String}
    (found : c.store.jobs.get? name = some job)
    (hsees : job.Sees inv.now inv.log (.found .failed)) :
    c.FailureSeen (.turn i clock fate) job := by
  obtain ⟨old, hold, hjob, hlog⟩ := before_turn hstep after
  obtain ⟨n, worker, href, hasked, hphase⟩ := hsees.of_found
  have hmem := List.mem_of_getElem? hold
  rw [← hjob, ← hlog] at hread
  rw [← hlog] at hasked
  obtain rfl := (h.sound.lawful job (.of_store found)).named n href
  obtain ⟨s, hs, _, heq⟩ := (h.sound.coherent old hmem).heard _ _ hasked
  -- the job is stored, so what was seen is its own worker
  have howner := (h.attentive old hmem job _ worker hread hasked).resolve_right
    fun hgone => hgone name job found rfl
  exact ⟨⟨i, clock, fate, old, worker, rfl, hold, hread, hasked, hphase⟩,
    s, hs, worker, MemoryStore.getWorker_eq_ok.mp heq, howner, hphase⟩

/-- What a write makes of the account of a job. -/
theorem Run.accounted_write (h : Run t Event.current c) (hacc : c.Accounted job) {name : String}
    (found : c.store.jobs.get? name = some job) (hsame : job.SameIdentity job')
    {seen : Observation} {now : Instant} {effect : Effect}
    (ht : job.Transition seen now job'.status effect) (alive : job.status.phase.terminal = false)
    (hfailed : seen = .found .failed → c.AttemptFailed job job.status.retries) :
    c.Accounted job' := by
  have hwithin := (h.sound.lawful job (.of_store found)).within
  have hattempts : ∀ k < job.status.retries, c.AttemptFailed job' k :=
    fun k hk => (hacc.attempts k hk).of_same hsame
  obtain ⟨name', uid, version, createdAt, spec, s'⟩ := job'
  dsimp only at ht hattempts
  obtain rfl : spec = job.spec := hsame.spec
  cases ht with
  | timedOut => exact ⟨hattempts, fun _ => .inl rfl⟩
  | started => exact ⟨fun k hk => absurd hk (UInt32.not_lt_zero), nofun⟩
  | vanished | succeeded | met => exact ⟨hattempts, nofun⟩
  | asked hp | waited hp => exact ⟨hattempts, fun hf => by simp [hp] at hf⟩
  | retried _ seenFailed left =>
    refine ⟨fun k hk => ?_, nofun⟩
    by_cases hlt : k < job.status.retries
    · exact hattempts k hlt
    · -- the attempt that has just failed
      dsimp only at hk
      rw [UInt32.lt_iff_toNat_lt, Job.toNat_succ_of_lt left] at hk
      rw [UInt32.lt_iff_toNat_lt] at hlt
      obtain rfl : k = job.status.retries := UInt32.toNat_inj.mp (by omega)
      exact (hfailed seenFailed).of_same hsame
  | exhausted _ seenFailed spent =>
    rw [UInt32.lt_iff_toNat_lt] at spent
    rw [UInt32.le_iff_toNat_le] at hwithin
    have hlast : job.status.retries = job.spec.maxRetries := UInt32.toNat_inj.mp (by omega)
    refine ⟨hattempts, fun _ => .inr ⟨hlast, fun k hk => ?_⟩⟩
    by_cases hlt : k < job.status.retries
    · exact hattempts k hlt
    · rw [UInt32.lt_iff_toNat_lt] at hlt
      dsimp only at hk
      rw [UInt32.le_iff_toNat_le] at hk
      obtain rfl : k = job.status.retries := UInt32.toNat_inj.mp (by omega)
      exact (hfailed seenFailed).of_same hsame
  | finished terminal =>
    rw [terminal] at alive
    cases alive

/-- A job that is stored after an event is accounted for by what was stored before it. -/
theorem Run.accounted_next (h : Run t Event.current c)
    (hall : ∀ old, c.Recorded old → old.uid = job'.uid → c.Accounted old)
    (hu : c'.Unwrapped job'.uid) (hstep : c.next t e = some c') {name : String}
    (hjob' : c'.store.jobs.get? name = some job') : c.Accounted job' := by
  cases h.sound.arrives hstep hjob' with
  | kept found => exact hall job' (.of_store found) rfl
  | born _ _ _ _ _ outcome =>
    subst outcome
    exact ⟨fun k hk => absurd hk UInt32.not_lt_zero, nofun⟩
  | @written i clock fate inv read job seen _ _ event _ found write after _ =>
    subst event
    have huid := write.sameIdentity.uid.symm
    obtain rfl := h.read_eq (hu.before hstep) found huid write
    have ht := read.step_transition seen inv.now inv.pacing
    rw [← write.status] at ht
    refine h.accounted_write (hall read (.of_store found) huid) found write.sameIdentity ht
      write.alive ?_
    rintro rfl
    exact (h.failureSeen hstep after write.first found write.sees).stored

/-- **Every job is accounted for.** -/
theorem Run.accounted (h : Run t Event.current c) {uid : Uid} (hu : c.Unwrapped uid) :
    ∀ job, c.Recorded job → job.uid = uid → c.Accounted job := by
  induction h with
  | start => exact fun job hjob => absurd hjob (not_recorded_start job)
  | @next c c' e before _ step ih =>
    intro job hrec huid
    have ih := ih (hu.before step)
    have hstores := next_stores step
    rcases recorded_next step hrec with hold | ⟨name, hjob⟩
    · exact (ih job hold huid).mono hstores
    · rw [← huid] at hu ih
      exact (before.accounted_next ih hu step hjob).mono hstores

/-- The retries of an incarnation change only by one, and only upon a failed worker. -/
theorem Run.retries_next (h : Run t Event.current c) (hu : c'.Unwrapped job'.uid)
    (hstep : c.next t e = some c') {name : String} (hjob' : c'.store.jobs.get? name = some job')
    (hjob : c.store.jobs.get? name = some job) (huid : job.uid = job'.uid)
    (hne : job'.status.retries ≠ job.status.retries) :
    job'.status.retries.toNat = job.status.retries.toNat + 1 ∧ c.FailureSeen e job := by
  have hs := h.sound
  cases hs.arrives hstep hjob' with
  | kept found =>
    rw [hjob] at found
    exact absurd (congrArg (·.status.retries) (Option.some.inj found).symm) hne
  | born _ _ fresh _ _ outcome =>
    refine absurd (hs.issued job (.of_store hjob)) ?_
    rw [huid, outcome]
    exact fresh
  | @written i clock fate inv read stored seen _ _ event _ found write after _ =>
    subst event
    obtain rfl := Option.some.inj (hjob.symm.trans found)
    obtain rfl := h.read_eq (hu.before hstep) found huid write
    have ht := read.step_transition seen inv.now inv.pacing
    rw [← write.status] at ht
    obtain ⟨rfl, hsucc⟩ :=
      (ht.retries_cases (hs.lawful read (.of_store found))).resolve_left hne
    exact ⟨hsucc, h.failureSeen hstep after write.first found write.sees⟩

/-- **Retries count failed workers and nothing else.** If an event changes the retries of an
incarnation, they go up by one, and the event is a write of an invocation that has been told that
the worker of the current attempt has failed; and the worker of the attempt, owned by this
incarnation, was stored as failed before. So all attempts that a stored job has behind it
had failed before, and a job that has failed, but not because its time was up, has failed in
all the attempts that it was allowed. -/
theorem retries_count_failures (h : Run t Event.current c) (hstep : c.next t e = some c')
    {name : String} (hjob' : c'.store.jobs.get? name = some job') (hu : c'.Unwrapped job'.uid) :
    (∀ job, c.store.jobs.get? name = some job → job.uid = job'.uid →
      job'.status.retries ≠ job.status.retries →
      job'.status.retries.toNat = job.status.retries.toNat + 1 ∧ c.FailureSeen e job) ∧
    (∀ k < job'.status.retries, c.AttemptFailed job' k) ∧
    (job'.status.phase = .failed → job'.status.errorMessage ≠ some job'.timeoutMessage →
      job'.status.retries = job'.spec.maxRetries ∧
        ∀ k ≤ job'.spec.maxRetries, c.AttemptFailed job' k) := by
  have hacc := h.accounted_next (h.accounted (hu.before hstep)) hu hstep hjob'
  exact ⟨fun job hjob huid hne => h.retries_next hu hstep hjob' hjob huid hne, hacc.attempts,
    fun hfailed hmessage => (hacc.exhausted hfailed).resolve_left hmessage⟩

/-- A job that is allowed two attempts. -/
def frail : Job.Submission where
  name := "bell"
  spec := { bell.spec with maxRetries := 1 }

/-- The first worker has failed, and an invocation is about to record this. -/
def failedOnce : List Event :=
  [.submit frail (.ofNat 1) (.ofSecond 0), .start "bell" (.ofSecond 1) {}] ++ turns 0 2 ++
    [.start "bell" (.ofSecond 2) {}] ++ turns 1 4 ++ [.start "bell" (.ofSecond 3) {}] ++ turns 2 4 ++
    [.report "bell-worker-0" .failed, .start "bell" (.ofSecond 4) {}] ++ turns 3 2

/-- So has the second one. -/
def failedTwice : List Event :=
  failedOnce ++ turns 3 2 ++ [.start "bell" (.ofSecond 5) {}] ++ turns 4 4 ++
    [.start "bell" (.ofSecond 6) {}] ++ turns 5 4 ++
    [.report "bell-worker-1" .failed, .start "bell" (.ofSecond 7) {}] ++ turns 6 2

theorem retries_count_failures_frail : ∃ c c' d d' job job' last,
    Run {} Event.current c ∧ c.next {} (.turn 3 (.ofSecond 0) .answered) = some c' ∧
    c.store.jobs.get? "bell" = some job ∧ c'.store.jobs.get? "bell" = some job' ∧
    job.status.retries = 0 ∧ job'.status.retries = 1 ∧
    c.FailureSeen (.turn 3 (.ofSecond 0) .answered) job ∧ c.AttemptFailed job' 0 ∧
    Run {} Event.current d ∧ d.next {} (.turn 6 (.ofSecond 0) .answered) = some d' ∧
    d'.store.jobs.get? "bell" = some last ∧ last.status.phase = .failed ∧
    ∀ k ≤ 1, d.AttemptFailed last k := by
  have honce : Run {} Event.current (outcome {} failedOnce) := .outcome (by decide)
  have htwice : Run {} Event.current (outcome {} failedTwice) := .outcome (by decide)
  have hstep : (outcome {} failedOnce).next {} (.turn 3 (.ofSecond 0) .answered) =
      some (outcome {} (failedOnce ++ turns 3 1)) := rfl
  have hstep' : (outcome {} failedTwice).next {} (.turn 6 (.ofSecond 0) .answered) =
      some (outcome {} (failedTwice ++ turns 6 1)) := rfl
  have hjob : (outcome {} failedOnce).store.jobs.get? "bell" =
      some (((outcome {} failedOnce).store.jobs.get? "bell").get rfl) := rfl
  have hjob' : (outcome {} (failedOnce ++ turns 3 1)).store.jobs.get? "bell" =
      some (((outcome {} (failedOnce ++ turns 3 1)).store.jobs.get? "bell").get rfl) := rfl
  have hlast : (outcome {} (failedTwice ++ turns 6 1)).store.jobs.get? "bell" =
      some (((outcome {} (failedTwice ++ turns 6 1)).store.jobs.get? "bell").get rfl) := rfl
  obtain ⟨hretried, hattempts, -⟩ := retries_count_failures honce hstep hjob'
    ((honce.next (by decide) hstep).unwrapped (by decide +kernel))
  obtain ⟨-, hseen⟩ := hretried _ hjob rfl (by decide +kernel)
  obtain ⟨-, -, hexhausted⟩ := retries_count_failures htwice hstep' hlast
    ((htwice.next (by decide) hstep').unwrapped (by decide +kernel))
  exact ⟨_, _, _, _, _, _, _, honce, hstep, hjob, hjob', rfl, rfl, hseen,
    hattempts 0 (by decide +kernel), htwice, hstep', hlast, rfl,
    (hexhausted rfl (by decide +kernel)).2⟩

end Cluster

end JobOperator
