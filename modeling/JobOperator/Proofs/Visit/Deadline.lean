import JobOperator.Proofs.Time.Place
import JobOperator.Proofs.Visit.Account

/-!
# The deadline is absolute

* `Job.pastDeadline_iff`: a job is past its deadline if more nanoseconds have passed since its start
  than its time limit has, whatever the limit is.
* `Job.TimedOut`: what is recorded of a job that was past its deadline. No other step records this.
* `Reconciler.visits_terminal`: whatever a later visit does to a job that has finished, it leaves
  the record as it is, or deletes it once it has expired.
* `Reconciler.deadline_exact`: a look at a job fails it for its time **exactly if the time is up**,
  whatever there is of workers, and nobody takes this back.
-/

namespace JobOperator

namespace Job

variable {job : Job} {s now : Instant}

/-- More time has passed since `s` than the job is allowed. -/
def Overdue (job : Job) (s now : Instant) : Prop :=
  0 < job.spec.timeoutSeconds ∧
    (job.spec.timeoutSeconds.toNat * nanosPerSecond : Int) < now.place - s.place

instance (job : Job) (s now : Instant) : Decidable (job.Overdue s now) :=
  inferInstanceAs (Decidable (_ ∧ _))

/-- The status of a job that is found to be overdue. -/
def overdueStatus (job : Job) (now : Instant) : Status :=
  { job.status with
    phase := .failed
    completionTime := some now
    errorMessage := some job.timeoutMessage
    workerRef := none }

/-- The job has failed because its time was up. -/
def TimedOut (job : Job) : Prop :=
  job.status.phase = .failed ∧ job.status.errorMessage = some job.timeoutMessage

instance (job : Job) : Decidable job.TimedOut := inferInstanceAs (Decidable (_ ∧ _))

/-- A job that is past its deadline is overdue, although the limit may be cut off. -/
theorem pastDeadline_iff (alive : job.status.phase.terminal = false)
    (started : job.status.startTime = some s) (hs : s.Ordinary) (hnow : now.Ordinary) :
    job.pastDeadline now ↔ job.Overdue s now := by
  simp only [pastDeadline, alive, started, Overdue]
  by_cases hzero : job.spec.timeoutSeconds = 0
  · have htimeout : job.spec.timeout = none := if_pos hzero
    rw [htimeout, hzero]
    simp
  · have htimeout : job.spec.timeout = some _ := if_neg hzero
    have hpos : 0 < job.spec.timeoutSeconds := by
      rw [UInt64.lt_iff_toNat_lt]
      exact Nat.pos_of_ne_zero fun h => hzero (UInt64.toNat_inj.mp h)
    rw [htimeout, Bool.not_false, Bool.true_and, decide_eq_true_eq, hs.lt_since_min hnow,
      and_iff_right hpos]

/-- Of a job that has no attempt left something else is recorded. -/
theorem exhaustedMessage_ne (job : Job) : job.exhaustedMessage ≠ job.timeoutMessage := by
  have hexhausted : job.exhaustedMessage.toList[4]? = some 't' := by
    unfold exhaustedMessage
    simp only [String.toList_append, List.append_assoc]
    exact (List.getElem?_append_left (by decide)).trans (by decide)
  have htimeout : job.timeoutMessage.toList[4]? = some 'e' := by
    unfold timeoutMessage
    simp only [String.toList_append, List.append_assoc]
    exact (List.getElem?_append_left (by decide)).trans (by decide)
  intro h
  rw [h, htimeout] at hexhausted
  cases hexhausted

/-- No step but the one at the deadline lets a job time out. -/
theorem pastDeadline_of_timedOut {seen : Observation} {pacing : Pacing} {next : Job}
    (alive : job.status.phase.terminal = false) (spec : next.spec = job.spec)
    (status : next.status = (job.step seen now pacing).status) (h : next.TimedOut) :
    job.pastDeadline now := by
  obtain ⟨hphase, hmessage⟩ := h
  have hsame : next.timeoutMessage = job.timeoutMessage := by
    unfold timeoutMessage
    rw [spec]
  have ht := job.step_transition seen now pacing
  rw [← status] at ht
  rw [hsame] at hmessage
  generalize (job.step seen now pacing).effect = effect at ht
  generalize next.status = nextStatus at *
  cases ht with
  | timedOut late => exact late
  | exhausted => exact absurd (Option.some.inj hmessage) job.exhaustedMessage_ne
  | started | met | vanished | succeeded | retried => cases hphase
  | asked | waited | finished =>
    rw [show job.status.phase = .failed from hphase] at alive
    cases alive

end Job

namespace Reconciler

variable {r : Reconciler} {s now clock : Instant} {m m' : MemoryStore} {job : Job}

/-- After a calm visit for a job that has not finished the record is there, with the status of the
step. -/
theorem found_handled (found : m.jobs.get? job.name = some job)
    (alive : job.status.phase.terminal = false) :
    ∃ next, (r.handled now clock m job).jobs.get? job.name = some next ∧
      next.status = (r.stepIn now (m.readied job now) job).status ∧
      (next = job.recorded next.status ∨ next = job) := by
  rw [handled_of_alive alive]
  generalize r.stepIn now (m.readied job now) job = step
  by_cases heffect : step.effect = .create
  · rw [carriedOut_of_create heffect]
    exact ⟨_, MemoryStore.get?_record .., rfl, .inl rfl⟩
  · rw [carriedOut_of_ne_create heffect, MemoryStore.relieved_jobs, MemoryStore.updated]
    split
    · exact ⟨_, MemoryStore.get?_record .., rfl, .inl rfl⟩
    · next hsame =>
      have hstatus : step.status = job.status := by simpa using hsame
      exact ⟨job, MemoryStore.found_readied found now, hstatus.symm, .inr rfl⟩

/-- What is found after a look at a job that has not finished. -/
theorem attend_alive (found : m.jobs.get? job.name = some job)
    (alive : job.status.phase.terminal = false) {next : Job}
    (hnext : (r.attend job.name now clock m).store.jobs.get? job.name = some next) :
    next.status = (r.stepIn now (m.readied job now) job).status ∧
      (next = job.recorded next.status ∨ next = job) := by
  have hfound : ∃ next', (r.handled now clock m job).jobs.get? job.name = some next' ∧ _ :=
    found_handled found alive
  obtain ⟨next', hnext', hstatus, hrecorded⟩ := hfound
  rw [(attend_found found).2, hnext'] at hnext
  obtain rfl := Option.some.inj hnext
  exact ⟨hstatus, hrecorded⟩

/-- A visit for a job that has finished leaves the record as it is, or deletes it if the job has
expired. -/
theorem Residue.of_terminal (h : r.Residue now clock m job m')
    (found : m.jobs.get? job.name = some job) (terminal : job.status.phase.terminal) :
    m'.jobs.get? job.name = some job ∨
      m'.jobs.get? job.name = none ∧ job.retention now = .expired := by
  cases h with
  | untouched | cleared => exact .inl found
  | swept waits => exact absurd waits.alive (by rw [terminal]; exact nofun)
  | supplied alive | recorded alive => exact absurd alive (by rw [terminal]; exact nofun)
  | completed =>
    rw [handled_of_terminal terminal]
    by_cases hexpired : job.retention now = .expired
    · rw [MemoryStore.wrappedUp_of_expired hexpired]
      exact .inr ⟨MemoryStore.get?_deleteJob .., hexpired⟩
    · rw [MemoryStore.wrappedUp_of_kept hexpired]
      exact .inl found

/-- Visits for a job that is gone do nothing. -/
theorem visits_absent {name : String} (absent : m.jobs.get? name = none) (vs : List Visit) :
    r.visits name vs m = m := by
  induction vs with
  | nil => rfl
  | cons v vs ih => exact (congrArg (r.visits name vs) (visit_absent absent v)).trans ih

/-- **A job that has finished stays as it is** through visits, until it has expired and is gone. -/
theorem visits_terminal (found : m.jobs.get? job.name = some job)
    (terminal : job.status.phase.terminal) (vs : List Visit) :
    (r.visits job.name vs m).jobs.get? job.name = some job ∨
      (r.visits job.name vs m).jobs.get? job.name = none ∧
        ∃ v ∈ vs, job.retention v.now = .expired := by
  induction vs generalizing m with
  | nil => exact .inl found
  | cons v vs ih =>
    rcases (visit_residue found rfl v).of_terminal found terminal with hkept | ⟨hgone, hexpired⟩
    · refine (ih hkept).imp_right fun ⟨hgone, v', hmem, hexpired⟩ => ?_
      exact ⟨hgone, v', List.mem_cons_of_mem _ hmem, hexpired⟩
    · refine .inr ⟨?_, v, List.mem_cons_self .., hexpired⟩
      show (r.visits job.name vs (r.visit job.name v m)).jobs.get? job.name = none
      rw [visits_absent hgone]
      exact hgone

/-- **The deadline is absolute.** A look at a job that has not finished fails it for its time if and
only if more nanoseconds have passed since its start than it is allowed. Then the record is read and
written, and nothing else is asked of the store; and whatever visits come later, at whatever time,
the record stays as it is, unless the job has expired and is deleted. -/
theorem deadline_exact (r : Reconciler) (clock : Instant) (found : m.jobs.get? job.name = some job)
    (alive : job.status.phase.terminal = false) (started : job.status.startTime = some s)
    (hs : s.Ordinary) (hnow : now.Ordinary) :
    ((∃ next, (r.attend job.name now clock m).store.jobs.get? job.name = some next ∧
        next.TimedOut) ↔ job.Overdue s now) ∧
    (job.Overdue s now →
      r.attend job.name now clock m = ⟨.ok .now, m.record job (job.overdueStatus now),
        [.getJob job.name, .updateStatus { job with status := job.overdueStatus now }]⟩ ∧
      ∀ vs, (r.visits job.name vs (r.attend job.name now clock m).store).jobs.get? job.name =
          some (job.recorded (job.overdueStatus now)) ∨
        (r.visits job.name vs (r.attend job.name now clock m).store).jobs.get? job.name = none ∧
          ∃ v ∈ vs, (job.recorded (job.overdueStatus now)).retention v.now = .expired) := by
  have hlate := job.pastDeadline_iff alive started hs hnow
  have hattend : job.Overdue s now → r.attend job.name now clock m =
      ⟨.ok .now, m.record job (job.overdueStatus now),
        [.getJob job.name, .updateStatus { job with status := job.overdueStatus now }]⟩ :=
    fun hover => attend_late found (hlate.mpr hover)
  refine ⟨⟨?_, fun hover => ?_⟩, fun hover => ⟨hattend hover, fun vs => ?_⟩⟩
  · rintro ⟨next, hnext, htimedOut⟩
    obtain ⟨hstatus, hrecorded⟩ := attend_alive found alive hnext
    have hspec : next.spec = job.spec := by
      rcases hrecorded with hrecorded | rfl
      · rw [hrecorded]
        rfl
      · rfl
    exact hlate.mp (job.pastDeadline_of_timedOut alive hspec hstatus htimedOut)
  · rw [hattend hover]
    exact ⟨_, MemoryStore.get?_record .., rfl, rfl⟩
  · have hrecord : (m.record job (job.overdueStatus now)).jobs.get? job.name =
        some (job.recorded (job.overdueStatus now)) := MemoryStore.get?_record ..
    have hterminal : (job.recorded (job.overdueStatus now)).status.phase.terminal := rfl
    rw [hattend hover]
    exact visits_terminal hrecord hterminal vs

/-- A job that has been running since 1970, and is allowed ten minutes. -/
def tenMinutes : Job where
  name := "bell"
  uid := .ofNat 1
  resourceVersion := 4
  createdAt := .ofSecond 0
  spec := { workerImage := "aer:0.15", circuits := "[]" }
  status := {
    phase := .running
    workerRef := some "bell-worker-0"
    startTime := some (.ofSecond 0) }

/-- Its worker has done its work. -/
def beaten : MemoryStore :=
  let m : MemoryStore := { jobs := (∅ : Table Job).insert "bell" tenMinutes }
  let created := (m.createWorker (.ofSecond 1) (({} : Worker.Template).launch tenMinutes)).2
  (created.updateWorkerPhase "bell-worker-0" .succeeded).2

/-- After ten minutes the job is in time, and a nanosecond later it is not. -/
theorem deadline_exact_beaten :
    let late : Instant := .ofNanos 600000000001
    (¬ ∃ next, (attend {} "bell" (.ofNanos 600000000000) default beaten).store.jobs.get? "bell" =
        some next ∧ next.TimedOut) ∧
      (attend {} "bell" late default beaten).result = .ok .now ∧
      (visits {} "bell" [.calm (.ofSecond 0) default] (attend {} "bell" late default beaten).store
          ).jobs.get? "bell" = some (tenMinutes.recorded (tenMinutes.overdueStatus late)) := by
  intro late
  have found : beaten.jobs.get? tenMinutes.name = some tenMinutes := by decide +kernel
  have hs : (Instant.ofSecond 0).Ordinary := ⟨by decide, by decide, by decide⟩
  have hlast : (Instant.ofNanos 600000000000).Ordinary := ⟨by decide, by decide, by decide⟩
  have hlate : late.Ordinary := ⟨by decide, by decide, by decide⟩
  have hintime := (deadline_exact {} default found rfl rfl hs hlast).1
  obtain ⟨hattend, hstays⟩ :=
    (deadline_exact {} default found rfl rfl hs hlate).2 (by decide +kernel)
  refine ⟨(not_congr hintime).mpr (by decide +kernel), congrArg (·.result) hattend, ?_⟩
  refine (hstays [.calm (.ofSecond 0) default]).resolve_right fun ⟨_, v, hv, hexpired⟩ => ?_
  rw [List.mem_singleton.mp hv] at hexpired
  exact absurd hexpired (by decide +kernel)

end Reconciler

end JobOperator
