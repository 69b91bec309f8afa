import JobOperator.Proofs.Visit.Deadline

/-!
# A finished job is kept to the nanosecond

* `Job.Expires`: the instant at which a finished job expires, if it does.
  `Job.retention_of_expires` and `Job.retention_of_never` say what its retention is.
* `Reconciler.collection_exact`: a look at a finished job deletes its workers, and then the job
  **if it has expired, not earlier**. Otherwise it directs to come back when it does.
* `Requeue.due?`, `Reconciler.Punctual`: invocations that happen when the ones before direct.
* `Reconciler.CollectedAt`: a job is gone at an instant and not before. So it is with one that has
  just finished (`Reconciler.collectedAt_of_finishing`).
-/

namespace JobOperator

namespace Job

variable {job : Job} {t₀ e now : Instant}

/-- A job that has finished at `t₀` expires at `e`. -/
def Expires (job : Job) (t₀ e : Instant) : Prop :=
  ∃ ttl, job.spec.ttlSecondsAfterFinished = some ttl ∧ e.Ordinary ∧
    e.place = t₀.place + ttl.toNat * nanosPerSecond

/-- A job expires if the calendar reaches that far, although the time to live may be cut off. -/
theorem expires_iff (ht : t₀.Ordinary) :
    job.Expires t₀ e ↔ ∃ ttl, job.spec.ttl = some ttl ∧ t₀.addSeconds? ttl = some e := by
  simp only [Expires, Spec.ttl, Option.map_eq_some_iff]
  constructor
  · rintro ⟨ttl, httl, he, hplace⟩
    refine ⟨_, ⟨ttl, httl, rfl⟩, ?_⟩
    rw [ht.addSeconds?_min]
    exact ht.addSeconds?_eq_some.mpr ⟨he, hplace⟩
  · rintro ⟨_, ⟨ttl, httl, rfl⟩, hadd⟩
    rw [ht.addSeconds?_min] at hadd
    exact ⟨ttl, httl, ht.addSeconds?_eq_some.mp hadd⟩

theorem retention_of_expires (completed : job.status.completionTime = some t₀) (ht : t₀.Ordinary)
    (hnow : now.Ordinary) (h : job.Expires t₀ e) :
    job.retention now = if e.place ≤ now.place then .expired else .until e := by
  obtain ⟨ttl, httl, hadd⟩ := (expires_iff ht).mp h
  obtain ⟨_, _, he, _⟩ := h
  simp only [retention, completed, httl, hadd, he.le_iff hnow]

theorem retention_of_never (completed : job.status.completionTime = some t₀) (ht : t₀.Ordinary)
    (h : ∀ e, ¬ job.Expires t₀ e) : job.retention now = .forever := by
  cases httl : job.spec.ttl with
  | none => simp only [retention, httl]
  | some ttl =>
    cases hadd : t₀.addSeconds? ttl with
    | none => simp only [retention, httl, completed, hadd]
    | some e => exact absurd ((expires_iff ht).mpr ⟨ttl, httl, hadd⟩) (h e)

/-- A worker's outcome that finishes a job is noted with the time, and the next look is to come at
the slow pace. -/
theorem advance_of_finishing {seen : Observation} {pacing : Pacing}
    (alive : job.status.phase.terminal = false) :
    (job.advance seen now pacing).status.phase.terminal →
      (job.advance seen now pacing).status.completionTime = some now ∧
        (job.advance seen now pacing).effect = .none ∧
        (job.advance seen now pacing).requeue = pacing.after .slow := by
  have hstays : ∀ {P : Prop}, job.status.phase.terminal → P := fun h => by
    rw [alive] at h
    cases h
  unfold advance
  dsimp only
  split
  · exact nofun
  · exact hstays
  · exact nofun
  · exact nofun
  · exact hstays
  · exact hstays
  · exact fun _ => ⟨rfl, rfl, rfl⟩
  · split
    · exact nofun
    · exact fun _ => ⟨rfl, rfl, rfl⟩
  · exact hstays
  · exact hstays

/-- How long after it has finished a job is looked at again. -/
def restFor (job : Job) (now : Instant) (pacing : Pacing) : Requeue :=
  if job.pastDeadline now then .now else pacing.after .slow

/-- The step that finishes a job. -/
theorem step_of_finishing {seen : Observation} {pacing : Pacing}
    (alive : job.status.phase.terminal = false)
    (terminal : (job.step seen now pacing).status.phase.terminal) :
    (job.step seen now pacing).status.completionTime = some now ∧
      (job.step seen now pacing).effect = .none ∧
      (job.step seen now pacing).requeue = job.restFor now pacing := by
  rw [step] at terminal ⊢
  rw [restFor]
  split
  · exact ⟨rfl, rfl, rfl⟩
  · next honTime =>
    rw [if_neg honTime] at terminal
    exact advance_of_finishing alive terminal

end Job

/-- When the next look is asked for, unless the calendar ends before. -/
def Requeue.due? (now : Instant) : Requeue → Option Instant
  | .done => none
  | .now => some now
  | .after delay =>
    let due := Instant.ofNanos (now.place + delay.nanos)
    if due.second ≤ Instant.lastSecond then some due else none

theorem Requeue.due?_after {now x : Instant} {delay : Delay} (hx : x.Ordinary)
    (hplace : x.place = now.place + delay.nanos) : (after delay).due? now = some x := by
  rw [due?, ← hplace, hx.ofNanos_place]
  exact if_pos hx.last

/-- Who waits for the time to a later instant comes back then. -/
theorem Requeue.due?_until {now x : Instant} (hx : x.Ordinary) (hlt : now.place < x.place) :
    (after ⟨(x.place - now.place).toNat⟩).due? now = some x := by
  refine due?_after hx ?_
  show x.place = now.place + ((x.place - now.place).toNat : Int)
  omega

/-- Which workers are left once those of a job are deleted. -/
theorem MemoryStore.get?_cleared {m : MemoryStore} {name n : String} {worker : Worker}
    (named : ∀ n worker, m.workers.get? n = some worker → worker.name = n) :
    (m.without (m.workersOf name)).workers.get? n = some worker ↔
      m.workers.get? n = some worker ∧ worker.owner.name ≠ name := by
  rw [get?_without]
  constructor
  · intro h
    split at h
    · cases h
    · next hnot => exact ⟨h, fun howner => hnot ((mem_workersOf named).mpr ⟨worker, h, howner⟩)⟩
  · rintro ⟨hn, howner⟩
    rw [if_neg, hn]
    intro hmem
    obtain ⟨worker', hn', howner'⟩ := (mem_workersOf named).mp hmem
    rw [hn] at hn'
    exact howner (Option.some.inj hn' ▸ howner')

namespace Reconciler

variable {r : Reconciler} {t₀ e now clock : Instant} {m : MemoryStore} {job : Job}

/-! ## One look at a finished job -/

/-- What a look at a job that has finished at `t₀` is to come to. -/
structure Collects (m : MemoryStore) (job : Job) (t₀ now : Instant)
    (a : Account (Except ReconcileError Requeue)) : Prop where
  /-- no worker of the job is left -/
  gone : ∀ n worker, a.store.workers.get? n = some worker → worker.owner.name ≠ job.name
  /-- workers of other jobs stay -/
  others : ∀ n worker, m.workers.get? n = some worker → worker.owner.name ≠ job.name →
    worker.owner.uid ≠ job.uid → a.store.workers.get? n = some worker
  /-- before it expires the job stays, and is looked at again when it does -/
  waits : ∀ e, job.Expires t₀ e → now.place < e.place →
    a.result = .ok (.after ⟨(e.place - now.place).toNat⟩) ∧ a.store.jobs = m.jobs ∧
      a.calls = clearingCalls m job.name
  /-- then it is deleted, after its workers -/
  expired : ∀ e, job.Expires t₀ e → e.place ≤ now.place →
    a.result = .ok .done ∧ a.store.jobs = m.jobs.erase job.name ∧
      a.calls = clearingCalls m job.name ++ [.deleteJob job.name]
  /-- a job that does not expire stays -/
  forever : (∀ e, ¬ job.Expires t₀ e) →
    a.result = .ok .done ∧ a.store.jobs = m.jobs ∧ a.calls = clearingCalls m job.name

section Finished

variable (found : m.jobs.get? job.name = some job) (terminal : job.status.phase.terminal)
  (completed : job.status.completionTime = some t₀) (ht : t₀.Ordinary)

include found terminal completed ht

theorem attend_until (hnow : now.Ordinary) (hexpires : job.Expires t₀ e)
    (hlt : now.place < e.place) : r.attend job.name now clock m =
      ⟨.ok (.after ⟨(e.place - now.place).toNat⟩), m.without (m.workersOf job.name),
        clearingCalls m job.name⟩ := by
  have hretention := job.retention_of_expires completed ht hnow hexpires
  rw [if_neg (Int.not_le.mpr hlt)] at hretention
  obtain ⟨_, _, he, _⟩ := hexpires
  rw [attend_terminal found terminal, MemoryStore.wrappedUp_of_kept (by rw [hretention]; exact nofun),
    collectCalls, hretention, Retention.requeue, hnow.since_eq he, if_neg nofun, List.append_nil]

theorem attend_expired (hnow : now.Ordinary) (hexpires : job.Expires t₀ e)
    (hle : e.place ≤ now.place) : r.attend job.name now clock m =
      ⟨.ok .done, ((m.without (m.workersOf job.name)).deleteJob job.name).2,
        clearingCalls m job.name ++ [.deleteJob job.name]⟩ := by
  have hretention := job.retention_of_expires completed ht hnow hexpires
  rw [if_pos hle] at hretention
  rw [attend_terminal found terminal, MemoryStore.wrappedUp_of_expired hretention, collectCalls,
    hretention, if_pos rfl]
  rfl

theorem attend_forever (hnever : ∀ e, ¬ job.Expires t₀ e) : r.attend job.name now clock m =
      ⟨.ok .done, m.without (m.workersOf job.name), clearingCalls m job.name⟩ := by
  have hretention : job.retention now = .forever := job.retention_of_never completed ht hnever
  rw [attend_terminal found terminal, MemoryStore.wrappedUp_of_kept (by rw [hretention]; exact nofun),
    collectCalls, hretention, Retention.requeue, if_neg nofun, List.append_nil]

/-- **One look at a finished job.** -/
theorem attend_collects (r : Reconciler) (clock : Instant) (hnow : now.Ordinary)
    (named : ∀ n worker, m.workers.get? n = some worker → worker.name = n) :
    Collects m job t₀ now (r.attend job.name now clock m) := by
  have found' : (m.without (m.workersOf job.name)).jobs.get? job.name = some job := found
  have hstore : (r.attend job.name now clock m).store = m.wrappedUp job now := by
    rw [attend_terminal found terminal]
  refine ⟨fun n worker h => ?_, fun n worker h howner huid => ?_, fun e he hlt => ?_,
    fun e he hle => ?_, fun hnever => ?_⟩
  · rw [hstore, MemoryStore.wrappedUp] at h
    split at h
    · rw [MemoryStore.deleteJob_found found'] at h
      exact ((MemoryStore.get?_cleared named).mp (MemoryStore.get?_of_filter h).1).2
    · exact ((MemoryStore.get?_cleared named).mp h).2
  · have hcleared := (MemoryStore.get?_cleared named).mpr ⟨h, howner⟩
    rw [hstore, MemoryStore.wrappedUp]
    split
    · rw [MemoryStore.deleteJob_found found', Table.get?_filter, hcleared]
      simp [huid]
    · exact hcleared
  · rw [attend_until found terminal completed ht hnow he hlt]
    exact ⟨rfl, rfl, rfl⟩
  · rw [attend_expired found terminal completed ht hnow he hle, MemoryStore.deleteJob_found found']
    exact ⟨rfl, rfl, rfl⟩
  · rw [attend_forever found terminal completed ht hnever]
    exact ⟨rfl, rfl, rfl⟩

end Finished

/-! ## Invocations that happen when they are asked for -/

/-- An invocation happens when the one before directs: at this time, and with this store. -/
inductive Punctual (r : Reconciler) (name : String) (t₀ : Instant) (m₀ : MemoryStore) :
    Instant → MemoryStore → Prop where
  | first : Punctual r name t₀ m₀ t₀ m₀
  | next {now next : Instant} {m : MemoryStore} {requeue : Requeue} (clock : Instant)
      (before : Punctual r name t₀ m₀ now m)
      (result : (r.attend name now clock m).result = .ok requeue)
      (due : requeue.due? now = some next) :
      Punctual r name t₀ m₀ next (r.attend name now clock m).store

/-- The job is deleted at `x`, and not before. -/
structure CollectedAt (r : Reconciler) (name : String) (t₀ : Instant) (m₀ : MemoryStore)
    (x : Instant) : Prop where
  collected : ∃ m, r.Punctual name t₀ m₀ x m ∧ ∀ clock,
    (r.attend name x clock m).store.jobs.get? name = none ∧
      (r.attend name x clock m).result = .ok .done
  notEarlier : ∀ now m, r.Punctual name t₀ m₀ now m → now.place ≤ x.place ∧
    (m.jobs.get? name).isSome ∧
      ∀ clock, (r.attend name now clock m).store.jobs.get? name = none → now = x

variable {m₀ : MemoryStore} {fin : Job} {t₁ x : Instant}

/-- The invocation that finishes a job notes the time, and directs when to come back. -/
theorem attend_finishing (found : m₀.jobs.get? job.name = some job)
    (alive : job.status.phase.terminal = false)
    (hfin : (r.attend job.name t₀ clock m₀).store.jobs.get? job.name = some fin)
    (terminal : fin.status.phase.terminal) :
    fin = job.recorded fin.status ∧ fin.status.completionTime = some t₀ ∧
      (fin.TimedOut ↔ job.pastDeadline t₀) ∧
      ∀ clock, (r.attend job.name t₀ clock m₀).result = .ok (job.restFor t₀ r.pacing) ∧
        (r.attend job.name t₀ clock m₀).store.jobs.get? job.name = some fin := by
  obtain ⟨hstatus, hrecorded⟩ := attend_alive found alive hfin
  have hne : ∀ next : Job, next.status = fin.status → next ≠ job := by
    rintro next hnext rfl
    rw [hnext, terminal] at alive
    cases alive
  have hfin' : fin = job.recorded fin.status := hrecorded.resolve_right (hne fin rfl)
  have hstep := job.step_of_finishing alive (hstatus ▸ terminal)
  refine ⟨hfin', hstatus ▸ hstep.1, ⟨?_, fun hlate => ?_⟩, fun clock' => ⟨?_, ?_⟩⟩
  · exact job.pastDeadline_of_timedOut alive (by rw [hfin']; rfl) hstatus
  · rw [stepIn, Job.step, if_pos hlate] at hstatus
    rw [hfin', hstatus]
    exact ⟨rfl, rfl⟩
  · rw [(attend_found found).1, directed_of_alive alive]
    exact congrArg Except.ok hstep.2.2
  · have hfound : ∃ next, (r.handled t₀ clock' m₀ job).jobs.get? job.name = some next ∧ _ :=
      found_handled found alive
    obtain ⟨next, hnext, hstatus', hrecorded'⟩ := hfound
    have hsame := hstatus'.trans hstatus.symm
    rw [(attend_found found).2, hnext, hrecorded'.resolve_right (hne next hsame), hsame, ← hfin']

/-- How long after it was finished a job is looked at for the first time. -/
theorem due?_restFor (ht : t₀.Ordinary) (ht₁ : t₁.Ordinary)
    (hplace : t₁.place = t₀.place + if job.pastDeadline t₀ then 0 else (r.pacing.slow.nanos : Int)) :
    (job.restFor t₀ r.pacing).due? t₀ = some t₁ := by
  rw [Job.restFor]
  split at hplace
  · next hlate =>
    rw [if_pos hlate, ht₁.eq_of_place ht (by omega)]
    rfl
  · next honTime =>
    rw [if_neg honTime]
    exact Requeue.due?_after ht₁ hplace

section Punctual

variable {name : String} {rest : Requeue}
  (first : ∀ clock, (r.attend name t₀ clock m₀).result = .ok rest ∧
    (r.attend name t₀ clock m₀).store.jobs.get? name = some fin)
  (due : rest.due? t₀ = some t₁) (named : fin.name = name)
  (terminal : fin.status.phase.terminal) (completed : fin.status.completionTime = some t₀)
  (ht : t₀.Ordinary) (ht₁ : t₁.Ordinary) (hexpires : fin.Expires t₀ e)

include first due named terminal completed ht ht₁ hexpires

/-- There are at most three invocations: the one that finishes the job, the one that comes back, and
if the job has not expired by then, the one at which it does. -/
theorem punctual_cases (h : r.Punctual name t₀ m₀ now m) : (now = t₀ ∧ m = m₀) ∨
    m.jobs.get? name = some fin ∧ (now = t₁ ∨ now = e ∧ t₁.place < e.place) := by
  subst named
  have he : e.Ordinary := by
    obtain ⟨_, _, he, _⟩ := hexpires
    exact he
  induction h with
  | first => exact .inl ⟨rfl, rfl⟩
  | @next now next m requeue clock before result due' ih =>
    rcases ih with ⟨rfl, rfl⟩ | ⟨found, hnow⟩
    · obtain ⟨hresult, hstore⟩ := first clock
      obtain rfl := Except.ok.inj (hresult.symm.trans result)
      exact .inr ⟨hstore, .inl (Option.some.inj (due'.symm.trans due))⟩
    · have hordinary : now.Ordinary := by
        rcases hnow with rfl | ⟨rfl, -⟩ <;> assumption
      by_cases hle : e.place ≤ now.place
      · -- the job is deleted, and nobody comes back
        rw [attend_expired found terminal completed ht hordinary hexpires hle] at result
        obtain rfl := Except.ok.inj result
        cases due'
      · have hlt := Int.not_le.mp hle
        rw [attend_until found terminal completed ht hordinary hexpires hlt] at result ⊢
        obtain rfl := Except.ok.inj result
        rw [Requeue.due?_until he hlt] at due'
        obtain rfl := Option.some.inj due'
        rcases hnow with rfl | ⟨rfl, -⟩
        · exact .inr ⟨found, .inr ⟨rfl, hlt⟩⟩
        · exact absurd hlt (Int.lt_irrefl _)

theorem collectedAt (stored : (m₀.jobs.get? name).isSome) (hx : x.Ordinary)
    (hplace : x.place = max t₁.place e.place) (hlater : t₀.place ≤ x.place) :
    r.CollectedAt name t₀ m₀ x := by
  have hcases : ∀ now m, r.Punctual name t₀ m₀ now m → _ := fun _ _ =>
    punctual_cases first due named terminal completed ht ht₁ hexpires
  subst named
  have he : e.Ordinary := by
    obtain ⟨_, _, he, _⟩ := hexpires
    exact he
  have hgone : ∀ {m now}, m.jobs.get? fin.name = some fin → now.Ordinary → e.place ≤ now.place →
      ∀ clock, (r.attend fin.name now clock m).store.jobs.get? fin.name = none ∧
        (r.attend fin.name now clock m).result = .ok .done := by
    intro m now found hnow hle clock
    rw [attend_expired found terminal completed ht hnow hexpires hle]
    exact ⟨MemoryStore.get?_deleteJob .., rfl⟩
  have hsecond : r.Punctual fin.name t₀ m₀ t₁ (r.attend fin.name t₀ default m₀).store :=
    .next default .first (first default).1 due
  constructor
  · by_cases hle : e.place ≤ t₁.place
    · obtain rfl : x = t₁ := hx.eq_of_place ht₁ (by omega)
      exact ⟨_, hsecond, hgone (first default).2 ht₁ hle⟩
    · have hlt := Int.not_le.mp hle
      obtain rfl : x = e := hx.eq_of_place he (by omega)
      have hwait : r.attend fin.name t₁ default _ = _ :=
        attend_until (first default).2 terminal completed ht ht₁ hexpires hlt
      have hthird := hsecond.next default (congrArg (·.result) hwait)
        (Requeue.due?_until he hlt)
      rw [hwait] at hthird
      exact ⟨_, hthird, hgone (first default).2 he (Int.le_refl _)⟩
  · intro now m h
    rcases hcases now m h with ⟨rfl, rfl⟩ | ⟨found, hnow⟩
    · refine ⟨hlater, stored, fun clock hnone => ?_⟩
      rw [(first clock).2] at hnone
      cases hnone
    · refine ⟨?_, by rw [found]; rfl, fun clock hnone => ?_⟩
      · rcases hnow with rfl | ⟨rfl, -⟩ <;> omega
      · rcases hnow with rfl | ⟨rfl, hlt⟩
        · by_cases hle : e.place ≤ now.place
          · exact ht₁.eq_of_place hx (by omega)
          · rw [attend_until found terminal completed ht ht₁ hexpires (Int.not_le.mp hle)] at hnone
            exact absurd (hnone.symm.trans found) nofun
        · exact he.eq_of_place hx (by omega)

end Punctual

/-- A job that finishes at `t₀` is collected once its time to live is over, and not before it is
looked at again. -/
theorem collectedAt_of_finishing {ttl : UInt64} (found : m₀.jobs.get? job.name = some job)
    (alive : job.status.phase.terminal = false)
    (hfin : (r.attend job.name t₀ clock m₀).store.jobs.get? job.name = some fin)
    (terminal : fin.status.phase.terminal) (ht : t₀.Ordinary) (hx : x.Ordinary)
    (httl : job.spec.ttlSecondsAfterFinished = some ttl)
    (hplace : x.place = t₀.place + (if fin.TimedOut then ttl.toNat * nanosPerSecond
      else max (ttl.toNat * nanosPerSecond) r.pacing.slow.nanos : Nat)) :
    r.CollectedAt job.name t₀ m₀ x := by
  obtain ⟨hrecorded, completed, htimedOut, first⟩ := attend_finishing found alive hfin terminal
  have hbounds := ht.first_le_place
  have hend := hx.place_lt_last
  -- how long the job rests before it is looked at again
  obtain ⟨wait, hwait, hmax⟩ : ∃ wait : Nat,
      (wait : Int) = (if job.pastDeadline t₀ then 0 else (r.pacing.slow.nanos : Int)) ∧
        x.place = t₀.place + (max wait (ttl.toNat * nanosPerSecond) : Nat) := by
    by_cases hlate : job.pastDeadline t₀
    · rw [if_pos (htimedOut.mpr hlate)] at hplace
      exact ⟨0, (if_pos hlate).symm, by rw [hplace, Nat.zero_max]⟩
    · rw [if_neg fun h => hlate (htimedOut.mp h)] at hplace
      exact ⟨_, (if_neg hlate).symm, by rw [hplace, Nat.max_comm]⟩
  have hordinary : ∀ n : Nat, n ≤ max wait (ttl.toNat * nanosPerSecond) →
      (Instant.ofNanos (t₀.place + n)).Ordinary := fun n hn => .ofNanos (by omega) (by omega)
  have ht₁ := hordinary wait (Nat.le_max_left ..)
  have he := hordinary (ttl.toNat * nanosPerSecond) (Nat.le_max_right ..)
  have hplace₁ := Instant.place_ofNanos (t₀.place + wait)
  have hplaceₑ := Instant.place_ofNanos (t₀.place + (ttl.toNat * nanosPerSecond : Nat))
  have hexpires : fin.Expires t₀ (.ofNanos (t₀.place + (ttl.toNat * nanosPerSecond : Nat))) := by
    refine ⟨ttl, by rw [hrecorded]; exact httl, he, ?_⟩
    rw [hplaceₑ, Int.natCast_mul]
  refine collectedAt first (due?_restFor ht ht₁ (by rw [hplace₁, hwait])) (by rw [hrecorded]; rfl)
    terminal completed ht ht₁ hexpires (by rw [found]; rfl) hx ?_ ?_
  · rw [hplace₁, hplaceₑ]
    omega
  · omega

/-- **Collection is exact.** A look at a job that has finished at `t₀` deletes its workers. If its time
to live ends at an instant that is yet to come, it stays, and the next look is asked for at this
very instant; if the instant has come, it is deleted; and if there is none, it stays for good. When
every look happens as the one before directs, a job that finishes at `t₀` is therefore deleted when
its time to live ends if it has run out of time, and if a worker's outcome has finished it, not
before the slow pace has passed either. -/
theorem collection_exact (r : Reconciler) :
    (∀ (m : MemoryStore) (job : Job) (t₀ now clock : Instant),
      (∀ n worker, m.workers.get? n = some worker → worker.name = n) →
      m.jobs.get? job.name = some job → job.status.phase.terminal →
      job.status.completionTime = some t₀ → t₀.Ordinary → now.Ordinary →
      Collects m job t₀ now (r.attend job.name now clock m)) ∧
    ∀ (m : MemoryStore) (job fin : Job) (t₀ clock x : Instant) (ttl : UInt64),
      m.jobs.get? job.name = some job → job.status.phase.terminal = false →
      (r.attend job.name t₀ clock m).store.jobs.get? job.name = some fin →
      fin.status.phase.terminal → t₀.Ordinary → x.Ordinary →
      job.spec.ttlSecondsAfterFinished = some ttl →
      x.place = t₀.place + (if fin.TimedOut then ttl.toNat * nanosPerSecond
        else max (ttl.toNat * nanosPerSecond) r.pacing.slow.nanos : Nat) →
      r.CollectedAt job.name t₀ m x :=
  ⟨fun _ _ _ _ clock named found terminal completed ht hnow =>
      attend_collects found terminal completed ht r clock hnow named,
    fun _ _ _ _ _ _ _ found alive hfin terminal ht hx httl hplace =>
      collectedAt_of_finishing found alive hfin terminal ht hx httl hplace⟩

/-- Of the job whose worker is done in time nothing but this is recorded. -/
def rung : Job :=
  tenMinutes.recorded { tenMinutes.status with
    phase := .completed
    completionTime := some (.ofSecond 42)
    workerRef := none }

/-- The job is kept for five minutes, and not a nanosecond longer. -/
theorem collection_exact_beaten :
    CollectedAt {} "bell" (.ofSecond 42) beaten (.ofSecond 342) ∧
    let done := (attend {} "bell" (.ofSecond 42) default beaten).store
    (attend {} "bell" (.ofNanos 341999999999) default done).result = .ok (.after ⟨1⟩) ∧
      (attend {} "bell" (.ofSecond 342) default done).store.jobs = done.jobs.erase "bell" ∧
      (attend {} "bell" (.ofSecond 342) default done).calls =
        [.getJob "bell", .listWorkers (some "bell"), .deleteWorker "bell-worker-0",
          .deleteJob "bell"] := by
  have found : beaten.jobs.get? tenMinutes.name = some tenMinutes := by decide +kernel
  have hfin : (attend {} tenMinutes.name (.ofSecond 42) default beaten).store.jobs.get?
      tenMinutes.name = some rung := by decide +kernel
  have ht : (Instant.ofSecond 42).Ordinary := ⟨by decide, by decide, by decide⟩
  have hx : (Instant.ofSecond 342).Ordinary := ⟨by decide, by decide, by decide⟩
  have hlast : (Instant.ofNanos 341999999999).Ordinary := ⟨by decide, by decide, by decide⟩
  have hexpires : rung.Expires (.ofSecond 42) (.ofSecond 342) := ⟨300, rfl, hx, by decide +kernel⟩
  refine ⟨(collection_exact {}).2 beaten tenMinutes rung _ default _ 300 found rfl hfin rfl ht hx rfl
    (by decide +kernel), ?_⟩
  intro done
  have named : ∀ n worker, done.workers.get? n = some worker → worker.name = n := by
    have hall : ∀ entry ∈ done.workers.toList, entry.2.name = entry.1 := by decide +kernel
    exact fun n worker h => hall (n, worker) (Table.mem_toList_iff.mpr h)
  have hworkers : done.workersOf rung.name = ["bell-worker-0"] := by decide +kernel
  have hearly := (collection_exact {}).1 done rung _ _ default named hfin rfl rfl ht hlast
  have hlate := (collection_exact {}).1 done rung _ _ default named hfin rfl rfl ht hx
  refine ⟨(hearly.waits _ hexpires (by decide +kernel)).1, (hlate.expired _ hexpires ?_).2.1,
    (hlate.expired _ hexpires ?_).2.2.trans ?_⟩
  · exact Int.le_refl _
  · exact Int.le_refl _
  · rw [clearingCalls, hworkers]
    rfl

end Reconciler

end JobOperator
