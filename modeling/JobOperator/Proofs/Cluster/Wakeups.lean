import JobOperator.Proofs.Cluster.Records
import JobOperator.Proofs.Visit.Convergence
import JobOperator.Proofs.Visit.Independence

/-!
# Every job is looked at again

* `Job.step_of_now`: a step after which another look is due at once has something to write.
* `MemoryStore.toGo`: the invocations in a row that may still ask for another one at once. There
  are three at most, and each of them brings the number down (`Reconciler.handled_toGo_lt`). It is
  not the phase alone that tells the number: a job that runs and has lost its worker goes back to
  wait, and a worker that is taken over may have failed already.
* `Cluster.Reachable.series`: invocations in a row without faults are among the things that can
  happen.
* `Cluster.no_hot_loop`: invocations in a row **come to rest after three at most**, and no job is
  forgotten: nobody comes back only if there is nothing left to do.
-/

namespace JobOperator

namespace Job

variable {job : Job} {seen : Observation} {now : Instant} {pacing : Pacing}

/-- A finished job is never deleted: it has no time to live, or one that ends behind the end of
the calendar. -/
def KeptForGood (job : Job) : Prop :=
  ∀ ttl, job.spec.ttlSecondsAfterFinished = some ttl →
    ∃ completed, job.status.completionTime = some completed ∧
      Instant.lastSecond < completed.second + ttl.toNat

/-- If nobody is to come back to a finished job, it is deleted or kept for good. -/
theorem retention_of_done (completed : job.status.completionTime.isSome)
    (h : (job.retention now).requeue now = .done) :
    job.retention now = .expired ∨ job.KeptForGood := by
  obtain ⟨t, ht⟩ := Option.isSome_iff_exists.mp completed
  by_cases hexpired : job.retention now = .expired
  · exact .inl hexpired
  · refine .inr fun ttl httl => ⟨t, ht, ?_⟩
    have hclamped : job.spec.ttl = some (min ttl.toNat Spec.longestSeconds) := by
      simp only [Spec.ttl, httl, Option.map_some]
    refine Int.not_le.mp fun hreached => ?_
    have hadd : (t.addSeconds? (min ttl.toNat Spec.longestSeconds)).isSome := by
      unfold Instant.addSeconds?
      split
      · rfl
      · rw [if_pos (by omega)]
        rfl
    obtain ⟨e, he⟩ := Option.isSome_iff_exists.mp hadd
    simp only [retention, hclamped, ht, he] at h hexpired
    split at h
    · next hle => exact hexpired (if_pos hle)
    · cases h

/-- A step after which another look is due at once asks for a worker or changes the status. -/
theorem step_of_now (h : (job.step seen now pacing).requeue = .now) :
    (job.step seen now pacing).effect = .create ∨
      (job.step seen now pacing).status ≠ job.status := by
  by_cases hlate : job.pastDeadline now
  · have alive := terminal_of_pastDeadline hlate
    refine .inr fun heq => ?_
    rw [step, if_pos hlate] at heq
    rw [← heq] at alive
    cases alive
  · rw [step, if_neg hlate] at h ⊢
    unfold advance at h ⊢
    dsimp only at h ⊢
    split at h
    · next hp => exact .inr fun heq => nomatch (congrArg Status.phase heq).trans hp
    · exact .inl rfl
    · next hp => exact .inr fun heq => nomatch (congrArg Status.phase heq).trans hp
    · next hp => exact .inr fun heq => nomatch (congrArg Status.phase heq).trans hp
    · cases h
    · cases h
    · cases h
    · split at h
      · cases h
      · cases h
    · cases h
    · cases h

/-- A job that has not finished is looked at again. -/
theorem step_requeue_ne_done (alive : job.status.phase.terminal = false) :
    (job.step seen now pacing).requeue ≠ .done := by
  have hstays : job.status.phase.terminal ≠ true := by
    rw [alive]
    exact nofun
  unfold step
  split
  · exact nofun
  · unfold advance
    dsimp only
    split
    · exact nofun
    · exact nofun
    · exact nofun
    · exact nofun
    · exact nofun
    · exact nofun
    · exact nofun
    · split
      · exact nofun
      · exact nofun
    · next hp => exact absurd (by rw [hp]; rfl) hstays
    · next hp => exact absurd (by rw [hp]; rfl) hstays

end Job

namespace MemoryStore

variable {m : MemoryStore} {job : Job} {now : Instant} {name : String}

/-- How many invocations in a row may ask for another one at once. -/
def toGoFor (m : MemoryStore) (now : Instant) (job : Job) : Nat :=
  if job.status.phase.terminal then 0
  else if job.pastDeadline now then 1
  else match job.status.phase, m.sight job with
    | .unstarted, _ | .running, .missing => 3
    | .pending, .missing => 2
    | .pending, .found _ => 1
    | _, _ => 0

/-- The same for the job of a name. -/
def toGo (m : MemoryStore) (now : Instant) (name : String) : Nat :=
  (m.jobs.get? name).elim 0 (m.toGoFor now)

theorem toGo_le (m : MemoryStore) (now : Instant) (name : String) : m.toGo now name ≤ 3 := by
  unfold toGo
  cases m.jobs.get? name with
  | none => exact Nat.zero_le _
  | some job =>
    dsimp only [Option.elim_some]
    unfold toGoFor
    split
    · exact Nat.zero_le _
    · split
      · decide
      · split <;> decide

theorem toGo_of_found (found : m.jobs.get? name = some job) :
    m.toGo now name = m.toGoFor now job := by
  unfold toGo
  rw [found]
  rfl

theorem toGoFor_of_terminal (h : job.status.phase.terminal) : m.toGoFor now job = 0 := if_pos h

theorem toGoFor_of_late (h : job.pastDeadline now) : m.toGoFor now job = 1 := by
  unfold toGoFor
  rw [Job.terminal_of_pastDeadline h, if_neg nofun, if_pos h]

theorem toGoFor_of_onTime (alive : job.status.phase.terminal = false)
    (onTime : job.pastDeadline now = false) :
    m.toGoFor now job = match job.status.phase, m.sight job with
      | .unstarted, _ | .running, .missing => 3
      | .pending, .missing => 2
      | .pending, .found _ => 1
      | _, _ => 0 := by
  unfold toGoFor
  rw [alive, onTime, if_neg nofun, if_neg nofun]

/-- A job that waits needs no more than two of them. -/
theorem toGoFor_of_pending (h : job.status.phase = .pending) : m.toGoFor now job ≤ 2 := by
  have alive : job.status.phase.terminal = false := by rw [h]; rfl
  cases hlate : job.pastDeadline now with
  | true => rw [toGoFor_of_late hlate]; decide
  | false =>
    rw [toGoFor_of_onTime alive hlate, h]
    cases m.sight job with
    | missing => exact Nat.le_refl _
    | found p => exact Nat.le_succ _

/-- A job that waits and whose worker is there needs one. -/
theorem toGoFor_of_met (h : job.status.phase = .pending) {p : Worker.Phase}
    (hsight : m.sight job = .found p) : m.toGoFor now job = 1 := by
  have alive : job.status.phase.terminal = false := by rw [h]; rfl
  cases hlate : job.pastDeadline now with
  | true => exact toGoFor_of_late hlate
  | false => rw [toGoFor_of_onTime alive hlate, h, hsight]

/-- A job that runs and whose worker is there needs none. -/
theorem toGoFor_of_seen (h : job.status.phase = .running) (onTime : job.pastDeadline now = false)
    {p : Worker.Phase} (hsight : m.sight job = .found p) : m.toGoFor now job = 0 := by
  rw [toGoFor_of_onTime (by rw [h]; rfl) onTime, h, hsight]

/-- The sweep does not hide the worker that a job names. -/
theorem Consistent.sight_readied (h : m.Consistent) (lawful : job.Lawful) (now : Instant) :
    (m.readied job now).sight job = m.sight job := by
  unfold sight
  split
  · rfl
  · next ref href =>
    rw [lawful.named ref href, h.get?_readied]

/-- Whoever names the same worker sees the same of it. -/
theorem sight_congr {m' : MemoryStore} {job' : Job}
    (ref : job'.status.workerRef = job.status.workerRef) (workers : m'.workers = m.workers) :
    m'.sight job' = m.sight job := by
  unfold sight
  rw [ref, workers]

end MemoryStore

namespace Reconciler

variable {r : Reconciler} {now clock : Instant} {m : MemoryStore} {job : Job} {name : String}

/-- Nobody is sent back at once to a job that has finished. -/
theorem alive_of_now (hnow : r.directed now m job = .now) :
    job.status.phase.terminal = false := by
  refine Bool.eq_false_iff.mpr fun hterminal => ?_
  rw [directed_of_terminal hterminal] at hnow
  cases hretention : job.retention now with
  | forever | expired | «until» =>
    rw [hretention] at hnow
    cases hnow

/-- A visit that directs to come back at once has written the record. -/
theorem found_of_now (clock : Instant) (hnow : r.directed now m job = .now) :
    (r.handled now clock m job).jobs.get? job.name =
      some (job.recorded (r.stepIn now (m.readied job now) job).status) := by
  have alive := alive_of_now hnow
  rw [directed_of_alive alive] at hnow
  rw [handled_of_alive alive]
  by_cases heffect : (r.stepIn now (m.readied job now) job).effect = .create
  · rw [carriedOut_of_create heffect]
    exact MemoryStore.get?_record ..
  · rw [carriedOut_of_changed heffect ((Job.step_of_now hnow).resolve_left heffect),
      MemoryStore.relieved_jobs]
    exact MemoryStore.get?_record ..

/-- If the worker is left alone, only a sweep has changed anything about workers. -/
theorem workers_of_now (clock : Instant) (hnow : r.directed now m job = .now)
    (heffect : (r.stepIn now (m.readied job now) job).effect = .none) :
    (r.handled now clock m job).workers = (m.readied job now).workers := by
  have hne : (r.stepIn now (m.readied job now) job).effect ≠ .create := by
    rw [heffect]
    exact nofun
  rw [handled_of_alive (alive_of_now hnow), carriedOut_of_ne_create hne, heffect]
  exact MemoryStore.updated_workers ..

/-- **Each of them brings the number down.** -/
theorem handled_toGo_lt (h : m.Consistent) (lawful : job.Lawful)
    (found : m.jobs.get? job.name = some job) (hnow : r.directed now m job = .now) :
    (r.handled now clock m job).toGo now job.name < m.toGo now job.name := by
  have alive := alive_of_now hnow
  have hnext := found_of_now clock hnow
  have hworkers := workers_of_now clock hnow
  have hsight := h.sight_readied lawful now
  rw [directed_of_alive alive] at hnow
  rw [MemoryStore.toGo_of_found found, MemoryStore.toGo_of_found hnext]
  by_cases hlate : job.pastDeadline now
  · -- the next look finds a job that has failed
    have hstep : r.stepIn now (m.readied job now) job =
        ⟨job.status.fail job.timeoutMessage now, .none, .now⟩ := if_pos hlate
    rw [hstep, MemoryStore.toGoFor_of_late hlate, MemoryStore.toGoFor_of_terminal rfl]
    exact Nat.one_pos
  have onTime : job.pastDeadline now = false := by simpa using hlate
  have hstep := stepIn_onTime (r := r) (m := m.readied job now) onTime
  rw [hsight] at hstep
  rw [MemoryStore.toGoFor_of_onTime alive onTime]
  cases phase : job.status.phase with
  | unstarted =>
    simp only [Job.advance, phase] at hstep
    rw [hstep]
    exact Nat.lt_succ_of_le (MemoryStore.toGoFor_of_pending rfl)
  | pending =>
    cases hseen : m.sight job with
    | missing =>
      -- the worker that it names now is there, whoever has created it
      have hnamed := stepIn_of_missing (r := r) ⟨phase, onTime⟩ (hsight.trans hseen)
      have found' := MemoryStore.found_readied found now
      have hworker : (r.supplied clock (m.readied job now) job).workers.get? (Worker.nameOf job) =
          some _ := (get?_supplied found' _).trans (if_pos rfl)
      rw [handled_of_alive alive, hnamed, carriedOut_of_create rfl]
      have hmet : ((r.supplied clock (m.readied job now) job).record job
          (naming job).status).toGoFor now (naming job) = 1 :=
        MemoryStore.toGoFor_of_met phase (MemoryStore.sight_of_named rfl hworker)
      exact Nat.lt_of_le_of_lt (Nat.le_of_eq hmet) Nat.one_lt_two
    | found p =>
      simp only [Job.advance, phase, hseen] at hstep
      rw [hstep] at hworkers ⊢
      have honTime : (job.recorded { job.status with phase := .running }).pastDeadline now =
          false := job.onTime_recorded alive onTime rfl rfl
      have hseen' : (r.handled now clock m job).sight
          (job.recorded { job.status with phase := .running }) = .found p :=
        (MemoryStore.sight_congr rfl (hworkers rfl)).trans (hsight.trans hseen)
      rw [MemoryStore.toGoFor_of_seen rfl honTime hseen']
      exact Nat.one_pos
  | running =>
    cases hseen : m.sight job with
    | missing =>
      simp only [Job.advance, phase, hseen] at hstep
      rw [hstep]
      exact Nat.lt_succ_of_le (MemoryStore.toGoFor_of_pending rfl)
    | found p =>
      -- who sees the worker waits
      rw [hstep, hseen] at hnow
      cases p with
      | pending | running | succeeded =>
        simp only [Job.advance, phase] at hnow
        cases hnow
      | failed =>
        simp only [Job.advance, phase] at hnow
        split at hnow
        · cases hnow
        · cases hnow
  | completed | failed =>
    rw [phase] at alive
    cases alive

/-- Nobody is to come back only to a job that is gone by then, or that is kept for good. -/
theorem kept_of_done (named : job.name = name) (lawful : job.Lawful)
    (found : m.jobs.get? name = some job) (hdone : r.directed now m job = .done) {next : Job}
    (hnext : (r.handled now clock m job).jobs.get? name = some next) :
    next.status.phase.terminal ∧ next.KeptForGood := by
  subst named
  cases hterminal : job.status.phase.terminal with
  | false =>
    rw [directed_of_alive hterminal] at hdone
    exact absurd hdone (Job.step_requeue_ne_done hterminal)
  | true =>
    rw [directed_of_terminal hterminal] at hdone
    rw [handled_of_terminal hterminal] at hnext
    have hcompleted : job.status.completionTime.isSome := by
      rw [lawful.completed]
      cases phase : job.status.phase with
      | completed => exact .inl rfl
      | failed => exact .inr rfl
      | unstarted | pending | running =>
        rw [phase] at hterminal
        cases hterminal
    rcases job.retention_of_done hcompleted hdone with hexpired | hkept
    · rw [MemoryStore.wrappedUp_of_expired hexpired, MemoryStore.get?_deleteJob] at hnext
      cases hnext
    · obtain rfl := found_wrappedUp found hnext
      exact ⟨hterminal, hkept⟩

/-- What is true of one invocation: it ends with a directive, and if this is to come back at once,
there are fewer to go; if nobody is to come back, there is nothing left to do. -/
theorem attend_directs (r : Reconciler) (name : String) (now clock : Instant) (h : m.Consistent)
    (lawful : ∀ name job, m.jobs.get? name = some job → job.Lawful) :
    ∃ requeue, (r.attend name now clock m).result = .ok requeue ∧
      (requeue = .now → (r.attend name now clock m).store.toGo now name < m.toGo now name) ∧
      (requeue = .done → ∀ job, (r.attend name now clock m).store.jobs.get? name = some job →
        job.status.phase.terminal ∧ job.KeptForGood) := by
  cases found : m.jobs.get? name with
  | none =>
    rw [attend_absent found]
    refine ⟨.done, rfl, nofun, fun _ job hjob => ?_⟩
    exact absurd (found.symm.trans hjob) nofun
  | some job =>
    have named := h.named name job found
    subst named
    have hattend : (r.attend job.name now clock m).result = .ok (r.directed now m job) ∧
        (r.attend job.name now clock m).store = r.handled now clock m job := attend_found found
    rw [hattend.1, hattend.2]
    refine ⟨_, rfl, handled_toGo_lt h (lawful _ _ found) found, fun hdone next hnext => ?_⟩
    exact kept_of_done rfl (lawful _ _ found) found hdone hnext

/-! ## Invocations in a row -/

/-- The stores between invocations for one job that follow one another at the same time, while the
clock of the store may go on. -/
def series (r : Reconciler) (name : String) (now : Instant) (clocks : Nat → Instant)
    (m : MemoryStore) : Nat → MemoryStore
  | 0 => m
  | i + 1 => (r.attend name now (clocks i) (r.series name now clocks m i)).store

/-- What these invocations end with. -/
def verdict (r : Reconciler) (name : String) (now : Instant) (clocks : Nat → Instant)
    (m : MemoryStore) (i : Nat) : Except ReconcileError Requeue :=
  (r.attend name now (clocks i) (r.series name now clocks m i)).result

/-- Invocations in a row neither keep each other busy, nor do they forget a job. -/
structure Wakeful (r : Reconciler) (name : String) (now : Instant) (clocks : Nat → Instant)
    (m : MemoryStore) : Prop where
  /-- whoever asks to come back at once has changed the store -/
  moves : ∀ i, r.verdict name now clocks m i = .ok .now →
    r.series name now clocks m (i + 1) ≠ r.series name now clocks m i
  /-- after three of these at most, one asks to come back later, or not at all -/
  rests : ∀ i, ∃ k ≤ 3, (∀ j < k, r.verdict name now clocks m (i + j) = .ok .now) ∧
    (r.verdict name now clocks m (i + k) = .ok .done ∨
      ∃ delay, r.verdict name now clocks m (i + k) = .ok (.after delay))
  /-- nobody comes back only if there is nothing left to do -/
  done : ∀ i, r.verdict name now clocks m i = .ok .done →
    ∀ job, (r.series name now clocks m (i + 1)).jobs.get? name = some job →
      job.status.phase.terminal ∧ job.KeptForGood
  /-- somebody comes back to a job that has not finished, or that is still to be deleted -/
  returns : ∀ i job, (r.series name now clocks m (i + 1)).jobs.get? name = some job →
    (job.status.phase.terminal → ¬ job.KeptForGood) →
    r.verdict name now clocks m i = .ok .now ∨
      ∃ delay, r.verdict name now clocks m i = .ok (.after delay)

end Reconciler

namespace Cluster

variable {t : Worker.Template} {c : Cluster}

/-- What invocations in a row leave behind comes about. -/
theorem Reachable.series {r : Reconciler} (h : Reachable r.template c) (name : String)
    (now : Instant) (clocks : Nat → Instant) (i : Nat) :
    ∃ c', Reachable r.template c' ∧ c'.store = r.series name now clocks c.store i := by
  induction i with
  | zero => exact ⟨c, h, rfl⟩
  | succ i ih =>
    obtain ⟨c', h', hstore⟩ := ih
    obtain ⟨c'', h'', hstore'⟩ := h'.attend name now (clocks i) r.pacing
    rw [hstore] at hstore'
    exact ⟨c'', h'', hstore'⟩

/-- What is true of each invocation of a row. -/
theorem Reachable.verdict {r : Reconciler} (h : Reachable r.template c) (name : String)
    (now : Instant) (clocks : Nat → Instant) (i : Nat) :
    ∃ requeue, r.verdict name now clocks c.store i = .ok requeue ∧
      (requeue = .now → (r.series name now clocks c.store (i + 1)).toGo now name <
        (r.series name now clocks c.store i).toGo now name) ∧
      (requeue = .done → ∀ job, (r.series name now clocks c.store (i + 1)).jobs.get? name =
        some job → job.status.phase.terminal ∧ job.KeptForGood) := by
  obtain ⟨c', h', hstore⟩ := h.series name now clocks i
  have hdirects := r.attend_directs name now (clocks i) h'.sound.consistent_now
    fun _ _ hjob => h'.sound.lawful _ (.of_store hjob)
  rw [hstore] at hdirects
  exact hdirects

/-- As long as invocations ask to come back at once, the number of those to go comes down. -/
theorem Reachable.rests {r : Reconciler} (h : Reachable r.template c) (name : String)
    (now : Instant) (clocks : Nat → Instant) (n i : Nat)
    (hle : (r.series name now clocks c.store i).toGo now name ≤ n) :
    ∃ k ≤ n, (∀ j < k, r.verdict name now clocks c.store (i + j) = .ok .now) ∧
      (r.verdict name now clocks c.store (i + k) = .ok .done ∨
        ∃ delay, r.verdict name now clocks c.store (i + k) = .ok (.after delay)) := by
  induction n generalizing i with
  | zero =>
    obtain ⟨requeue, hverdict, hnow, -⟩ := h.verdict name now clocks i
    refine ⟨0, Nat.le_refl _, fun j hj => absurd hj (Nat.not_lt_zero j), ?_⟩
    cases requeue with
    | done => exact .inl hverdict
    | after delay => exact .inr ⟨delay, hverdict⟩
    | now =>
      have hlt := hnow rfl
      omega
  | succ n ih =>
    obtain ⟨requeue, hverdict, hnow, -⟩ := h.verdict name now clocks i
    cases requeue with
    | done => exact ⟨0, Nat.zero_le _, fun j hj => absurd hj (Nat.not_lt_zero j), .inl hverdict⟩
    | after delay =>
      exact ⟨0, Nat.zero_le _, fun j hj => absurd hj (Nat.not_lt_zero j), .inr ⟨delay, hverdict⟩⟩
    | now =>
      have hlt := hnow rfl
      obtain ⟨k, hk, hbefore, hlast⟩ := ih (i + 1) (by omega)
      have hshift : i + (k + 1) = i + 1 + k := by omega
      refine ⟨k + 1, Nat.succ_le_succ hk, fun j hj => ?_, hshift ▸ hlast⟩
      cases j with
      | zero => exact hverdict
      | succ j =>
        have hj' : i + (j + 1) = i + 1 + j := by omega
        exact hj' ▸ hbefore j (by omega)

/-- **No hot loop, and no forgotten job.** Whatever has happened, invocations for a job that follow
one another without faults, and with no other writer, at the same time: one that asks to come
back at once has changed the store; there are three of these in a row at most, and after them one
asks to come back later, or not at all; and the latter only if the record is gone by then, or
the job has finished and is kept for good. -/
theorem no_hot_loop {r : Reconciler} (h : Reachable r.template c) (name : String) (now : Instant)
    (clocks : Nat → Instant) : r.Wakeful name now clocks c.store where
  moves := by
    intro i hi hsame
    obtain ⟨requeue, hverdict, hnow, -⟩ := h.verdict name now clocks i
    rw [hi] at hverdict
    have hlt := hnow (Except.ok.inj hverdict).symm
    rw [hsame] at hlt
    exact Nat.lt_irrefl _ hlt
  rests := fun i => h.rests name now clocks 3 i (MemoryStore.toGo_le ..)
  done := by
    intro i hi
    obtain ⟨requeue, hverdict, -, hdone⟩ := h.verdict name now clocks i
    rw [hi] at hverdict
    exact hdone (Except.ok.inj hverdict).symm
  returns := by
    intro i job hjob hleft
    obtain ⟨requeue, hverdict, -, hdone⟩ := h.verdict name now clocks i
    cases requeue with
    | now => exact .inl hverdict
    | after delay => exact .inr ⟨delay, hverdict⟩
    | done =>
      obtain ⟨hterminal, hkept⟩ := hdone rfl job hjob
      exact absurd hkept (hleft hterminal)

/-- A job that has just been submitted needs all three of them. -/
theorem no_hot_loop_bell : ∃ c, Reachable {} c ∧
    let m := c.store
    let verdict := Reconciler.verdict {} "bell" (.ofSecond 1) (fun _ => .ofSecond 2) m
    let series := Reconciler.series {} "bell" (.ofSecond 1) (fun _ => .ofSecond 2) m
    (∀ i < 3, verdict i = .ok .now ∧ series (i + 1) ≠ series i) ∧
      verdict 3 = .ok (.after (.ofSeconds 5)) ∧
      ∃ k ≤ 3, (verdict (3 + k) = .ok .done ∨ ∃ delay, verdict (3 + k) = .ok (.after delay)) := by
  have hreach : Reachable ({} : Reconciler).template
      (outcome {} [.submit bell (.ofNat 1) (.ofSecond 0)]) := .outcome fun _ _ => trivial
  have hwakeful := no_hot_loop hreach "bell" (.ofSecond 1) fun _ => .ofSecond 2
  have hnow : ∀ i < 3, Reconciler.verdict {} "bell" (.ofSecond 1) (fun _ => .ofSecond 2)
      (outcome {} [.submit bell (.ofNat 1) (.ofSecond 0)]).store i = .ok .now := by
    intro i hi
    match i, hi with
    | 0, _ | 1, _ | 2, _ => rfl
  obtain ⟨k, hk, -, hlast⟩ := hwakeful.rests 3
  exact ⟨_, hreach, fun i hi => ⟨hnow i hi, hwakeful.moves i (hnow i hi)⟩, rfl, k, hk, hlast⟩

end Cluster

end JobOperator
