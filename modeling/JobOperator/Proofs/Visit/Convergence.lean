import JobOperator.Proofs.Visit.Confluence

/-!
# Visits come to rest

* `MemoryStore.Settled`: the job is gone, or it has finished and has no worker, or it runs and
  has no worker but the one that it names. A calm visit changes nothing then.
* `Reconciler.settles`: five calm visits are enough. There is one lemma for each stage of a job,
  from the last one to the first: a finished job needs one visit, a job that runs three at most, and
  a job that waits may have to take over a worker that has failed, which makes five.
* `Reconciler.visits_converge`: hence calm visits **come to rest**, and disturbed visits before them
  make no difference to where.
-/

namespace JobOperator

/-- No time has passed at an instant since itself. -/
theorem Instant.since_self (t : Instant) : t.since t = 0 := by
  simp [since]

namespace Job

/-- A job that starts now is not late. -/
theorem pastDeadline_of_start {job : Job} {now : Instant} (h : job.status.startTime = some now) :
    job.pastDeadline now = false := by
  unfold pastDeadline
  rw [h]
  cases job.spec.timeout with
  | none => simp
  | some timeout =>
    have hnot : ¬ ((timeout * nanosPerSecond : Nat) : Int) < now.since now := by
      rw [Instant.since_self]
      omega
    dsimp only
    rw [decide_eq_false hnot, Bool.and_false]

end Job

namespace MemoryStore

/-- A calm visit for the job of this name has nothing to do. -/
inductive Settled (m : MemoryStore) (now : Instant) (name : String) : Prop where
  | gone (absent : m.jobs.get? name = none)
      (bare : ∀ n worker, m.workers.get? n = some worker → worker.owner.name ≠ name)
  | finished {job : Job} (found : m.jobs.get? name = some job)
      (terminal : job.status.phase.terminal) (kept : job.retention now ≠ .expired)
      (bare : ∀ n worker, m.workers.get? n = some worker → worker.owner.name ≠ name)
  | running {job : Job} {ref : String} {worker : Worker} (found : m.jobs.get? name = some job)
      (phase : job.status.phase = .running) (onTime : job.pastDeadline now = false)
      (named : job.status.workerRef = some ref) (there : m.workers.get? ref = some worker)
      (busy : worker.phase.finished = false)
      (sole : ∀ n worker, m.workers.get? n = some worker → worker.owner.name = name → n = ref)

variable {m : MemoryStore} {job : Job} {name : String}

end MemoryStore

namespace Reconciler

variable {r : Reconciler} {now clock : Instant} {m : MemoryStore} {job : Job} {name : String}
  {n : Nat}

/-- A step that changes the status, and does nothing to a worker. -/
theorem visited_of_step (clock : Instant) (found : m.jobs.get? job.name = some job)
    (alive : job.status.phase.terminal = false) {step : Step}
    (hstep : r.stepIn now (m.readied job now) job = step) (heffect : step.effect = .none)
    (changed : step.status ≠ job.status) :
    r.visited now clock m job.name = (m.readied job now).record job step.status := by
  have hne : step.effect ≠ .create := by
    rw [heffect]
    exact nofun
  rw [visited_of_alive found alive, hstep, carriedOut_of_changed hne changed, heffect]
  rfl

/-! ## Nothing to do -/

/-- A settled store stays as it is. -/
theorem visited_of_settled (h : m.Tidy) (hs : m.Settled now name) (clock : Instant) :
    r.visited now clock m name = m := by
  cases hs with
  | gone absent => exact visited_of_absent absent
  | @finished job found terminal kept bare =>
    have named := h.consistent.named name job found
    subst named
    have hbare : m.without (m.workersOf job.name) = m :=
      MemoryStore.without_eq_self fun n hn => by
        obtain ⟨k, worker, rfl, hw⟩ := h.consistent.mem_workersOf_iff.mp hn
        exact absurd (h.consistent.owner_of_name hw) (bare _ _ hw)
    rw [visited_of_found found, handled_of_terminal terminal, MemoryStore.wrappedUp_of_kept kept,
      hbare]
  | @running job ref worker found phase onTime named there busy =>
    have hname := h.consistent.named name job found
    subst hname
    have alive : job.status.phase.terminal = false := by rw [phase]; rfl
    have hready : m.readied job now = m :=
      MemoryStore.readied_of_not_pending (by rw [phase]; exact nofun)
    have hstay : (r.stepIn now m job).status = job.status ∧
        (r.stepIn now m job).effect = .none := by
      rw [stepIn_onTime onTime, MemoryStore.sight_of_named named there]
      cases hp : worker.phase with
      | pending | running => simp only [Job.advance, phase, and_self]
      | succeeded | failed =>
        rw [hp] at busy
        cases busy
    rw [visited_of_alive found alive, hready,
      carriedOut_of_ne_create (by rw [hstay.2]; exact nofun), hstay.2]
    exact if_neg (by simp [hstay.1])

/-- After so many calm visits the store is settled. -/
def Settles (r : Reconciler) (now : Instant) (name : String) : Nat → MemoryStore → Prop
  | 0, m => m.Settled now name
  | n + 1, m => ∀ clock, r.Settles now name n (r.visited now clock m name)

/-- One more visit does no harm. -/
theorem Settles.succ {n : Nat} (hs : r.Settles now name n m) (h : m.Tidy) :
    r.Settles now name (n + 1) m := by
  induction n generalizing m with
  | zero =>
    intro clock
    rw [visited_of_settled h hs clock]
    exact hs
  | succ n ih => exact fun clock => ih (hs clock) (visited_tidy h now clock name)

theorem Settles.mono {i j : Nat} (hs : r.Settles now name i m) (h : m.Tidy) (hij : i ≤ j) :
    r.Settles now name j m := by
  induction hij with
  | refl => exact hs
  | step _ ih => exact ih.succ h

/-! ## From stage to stage -/

/-- Workers go with their job. -/
theorem settled_of_absent (h : m.Tidy) (absent : m.jobs.get? name = none) :
    m.Settled now name := by
  refine .gone absent fun n worker hw howner => ?_
  obtain ⟨job, hjob, -⟩ := (h.consistent.placed n worker hw).owned
  rw [howner, absent] at hjob
  cases hjob

/-- A finished job loses its workers, and if it has expired it goes as well. -/
theorem settles_of_finished (job : Job) (h : m.Tidy) (found : m.jobs.get? job.name = some job)
    (terminal : job.status.phase.terminal) : r.Settles now job.name 1 m := by
  intro clock
  have htidy := visited_tidy (r := r) h now clock job.name
  rw [visited_of_found found, handled_of_terminal terminal] at htidy ⊢
  by_cases hexpired : job.retention now = .expired
  · rw [MemoryStore.wrappedUp_of_expired hexpired] at htidy ⊢
    exact settled_of_absent htidy (MemoryStore.get?_deleteJob ..)
  · rw [MemoryStore.wrappedUp_of_kept hexpired]
    refine .finished (m := m.without _) found terminal hexpired fun n worker hw howner => ?_
    rw [MemoryStore.get?_without] at hw
    split at hw
    · cases hw
    · next hn =>
      obtain ⟨k, hk⟩ := (h.consistent.placed n worker hw).attempt
      rw [howner] at hk
      exact hn (h.consistent.mem_workersOf_iff.mpr ⟨k, worker, hk, hw⟩)

/-- A job that is late fails. -/
theorem settles_of_late (h : m.Tidy) (found : m.jobs.get? job.name = some job)
    (late : job.pastDeadline now) : r.Settles now job.name 2 m := by
  intro clock
  have alive := Job.terminal_of_pastDeadline late
  have hstep : ∀ m : MemoryStore, r.stepIn now m job =
      ⟨job.status.fail job.timeoutMessage now, .none, .now⟩ := fun m => if_pos late
  have hvisited := visited_of_step (r := r) clock found alive (hstep _) rfl fun heq => by
    have hphase := congrArg Job.Status.phase heq
    rw [← hphase] at alive
    cases alive
  have htidy := visited_tidy (r := r) h now clock job.name
  rw [hvisited] at htidy ⊢
  exact settles_of_finished (job.recorded _) htidy (MemoryStore.get?_record ..) rfl

/-- A job that runs has no worker but the one that it names. -/
theorem settled_of_running (h : m.Tidy) (found : m.jobs.get? job.name = some job)
    (phase : job.status.phase = .running) (onTime : job.pastDeadline now = false)
    {worker : Worker} (there : m.workers.get? (Worker.nameOf job) = some worker)
    (busy : worker.phase.finished = false) : m.Settled now job.name := by
  have lawful := h.lawful _ _ found
  obtain ⟨ref, href⟩ := Option.isSome_iff_exists.mp (lawful.running phase)
  have hname := lawful.named ref href
  rw [← hname] at there
  refine .running found phase onTime href there busy fun n w hw howner => ?_
  obtain ⟨k, hk⟩ := (h.consistent.placed n w hw).attempt
  rw [howner] at hk
  rw [hk] at hw ⊢
  rw [hname, (h.admitted _ _ k w found hw).running phase]
  rfl

/-- A job that waits, and whose worker is there, runs next. -/
theorem settles_of_met {n : Nat} (job : Job) (h : m.Tidy) (found : m.jobs.get? job.name = some job)
    (waits : job.Waits now) (named : job.status.workerRef.isSome) {worker : Worker}
    (there : m.workers.get? (Worker.nameOf job) = some worker)
    (hrun : ∀ (m' : MemoryStore) (job' : Job), m'.Tidy → m'.jobs.get? job'.name = some job' →
      job'.status.phase = .running → job'.pastDeadline now = false →
      m'.workers.get? (Worker.nameOf job') = some worker → r.Settles now job'.name n m') :
    r.Settles now job.name (n + 1) m := by
  intro clock
  obtain ⟨hphase, onTime⟩ := waits
  have alive : job.status.phase.terminal = false := by rw [hphase]; rfl
  obtain ⟨ref, href⟩ := Option.isSome_iff_exists.mp named
  have hname := (h.lawful _ _ found).named ref href
  have there' : (m.readied job now).workers.get? (Worker.nameOf job) = some worker :=
    h.consistent.get?_readied.trans there
  have hstep : r.stepIn now (m.readied job now) job =
      ⟨{ job.status with phase := .running }, .none, .now⟩ := by
    rw [stepIn_onTime onTime, MemoryStore.sight_of_named href (by rw [hname]; exact there')]
    simp only [Job.advance, hphase]
  have hvisited := visited_of_step clock found alive hstep rfl fun heq => by
    have hphase' := congrArg Job.Status.phase heq
    rw [hphase] at hphase'
    cases hphase'
  have htidy := visited_tidy (r := r) h now clock job.name
  rw [hvisited] at htidy ⊢
  exact hrun _ (job.recorded _) htidy (MemoryStore.get?_record ..) rfl
    (job.onTime_recorded alive onTime rfl rfl) there'

/-- A job that waits, and has no worker, gets one, and then runs. -/
theorem settles_of_free (job : Job) (h : m.Tidy) (found : m.jobs.get? job.name = some job)
    (waits : job.Waits now) (free : m.workers.get? (Worker.nameOf job) = none) :
    r.Settles now job.name 2 m := by
  intro clock
  have alive := waits.alive
  have free' : (m.readied job now).workers.get? (Worker.nameOf job) = none :=
    h.consistent.get?_readied.trans free
  have found' := MemoryStore.found_readied found now
  have hsight := MemoryStore.sight_of_absent (h.lawful _ _ found) free'
  have hvisited : r.visited now clock m job.name =
      (r.supplied clock (m.readied job now) job).record job (naming job).status := by
    rw [visited_of_alive found alive, stepIn_of_missing waits hsight, carriedOut_of_create rfl]
    rfl
  have htidy := visited_tidy (r := r) h now clock job.name
  rw [hvisited] at htidy ⊢
  have there : (r.supplied clock (m.readied job now) job).workers.get? (Worker.nameOf job) =
      some ((r.template.launch job).toWorker clock) := by
    rw [get?_supplied found', if_pos rfl, free']
    rfl
  exact settles_of_met (naming job) htidy found_naming waits rfl there
    fun m' job' h' found' phase onTime there' =>
      settled_of_running h' found' phase onTime there' rfl

/-- A job that runs, and whose worker is left alone by a step that ends this, is in the next stage
then. -/
theorem settles_of_moved {n : Nat} (h : m.Tidy) (found : m.jobs.get? job.name = some job)
    (phase : job.status.phase = .running) {step : Step} (hstep : r.stepIn now m job = step)
    (heffect : step.effect = .none) (moved : step.status.phase ≠ .running)
    (hnext : ∀ m' : MemoryStore, m'.Tidy →
      m'.jobs.get? job.name = some (job.recorded step.status) → m'.workers = m.workers →
      r.Settles now job.name n m') : r.Settles now job.name (n + 1) m := by
  intro clock
  have alive : job.status.phase.terminal = false := by rw [phase]; rfl
  have hready : m.readied job now = m :=
    MemoryStore.readied_of_not_pending (by rw [phase]; exact nofun)
  have hvisited := visited_of_step clock found alive (hready.symm ▸ hstep) heffect
    fun heq => moved (by rw [heq, phase])
  have htidy := visited_tidy (r := r) h now clock job.name
  rw [hvisited, hready] at htidy ⊢
  exact hnext _ htidy (MemoryStore.get?_record ..) rfl

/-- A job whose worker has failed waits for another one, if it may. -/
theorem settles_of_retried (h : m.Tidy) (found : m.jobs.get? job.name = some job)
    (phase : job.status.phase = .running) (onTime : job.pastDeadline now = false)
    {ref : String} (href : job.status.workerRef = some ref)
    (hsight : m.sight job = .found .failed) (hleft : job.canRetry) :
    r.Settles now job.name 3 m := by
  intro clock
  have alive : job.status.phase.terminal = false := by rw [phase]; rfl
  have hready : m.readied job now = m :=
    MemoryStore.readied_of_not_pending (by rw [phase]; exact nofun)
  have hstep : r.stepIn now m job = ⟨{ job.status with
      phase := .pending, retries := job.status.retries + 1, workerRef := none },
      .delete ref, r.pacing.after .default⟩ := by
    rw [stepIn_onTime onTime, hsight]
    simp only [Job.advance, phase, href, hleft, if_true, Option.getD_some]
  have hne : (r.stepIn now m job).effect ≠ .create := by
    rw [hstep]
    exact nofun
  have changed : (r.stepIn now m job).status ≠ job.status := fun heq => by
    rw [hstep] at heq
    have hphase := congrArg Job.Status.phase heq
    rw [phase] at hphase
    cases hphase
  have hvisited : r.visited now clock m job.name =
      (m.record job (r.stepIn now m job).status).without [ref] := by
    rw [visited_of_alive found alive, hready, carriedOut_of_changed hne changed, hstep]
    rfl
  have htidy := visited_tidy (r := r) h now clock job.name
  rw [hvisited, hstep] at htidy ⊢
  refine settles_of_free (job.recorded _) htidy (MemoryStore.get?_record ..)
    (Job.waits_recorded alive onTime rfl rfl) (Option.eq_none_iff_forall_ne_some.mpr
      fun next hnext => ?_)
  -- nobody has asked for a worker of the next attempt yet
  have hreached : job.status.retries + 1 ≤ job.status.retries := by
    rw [MemoryStore.get?_without] at hnext
    split at hnext
    · cases hnext
    · exact (h.admitted _ _ _ next found hnext).reached
  rw [UInt32.le_iff_toNat_le, Job.toNat_succ_of_lt (of_decide_eq_true hleft)] at hreached
  omega

/-- A job that runs needs three visits if it has to wait again. -/
theorem settles_of_running (h : m.Tidy) (found : m.jobs.get? job.name = some job)
    (phase : job.status.phase = .running) (onTime : job.pastDeadline now = false) :
    r.Settles now job.name 3 m := by
  have alive : job.status.phase.terminal = false := by rw [phase]; rfl
  have lawful := h.lawful _ _ found
  obtain ⟨ref, href⟩ := Option.isSome_iff_exists.mp (lawful.running phase)
  have hname := lawful.named ref href
  have hadvance := stepIn_onTime (r := r) (m := m) onTime
  cases hw : m.workers.get? ref with
  | none =>
    -- the worker has vanished
    rw [MemoryStore.sight_of_absent lawful (by rw [← hname]; exact hw)] at hadvance
    simp only [Job.advance, phase] at hadvance
    refine settles_of_moved h found phase hadvance rfl nofun fun m' h' found' hworkers => ?_
    refine settles_of_free (job.recorded _) h' found' (Job.waits_recorded alive onTime rfl rfl) ?_
    rw [hworkers]
    exact hname ▸ hw
  | some worker =>
    have hsight := MemoryStore.sight_of_named href hw
    cases hp : worker.phase with
    | pending | running =>
      have hbusy : worker.phase.finished = false := by rw [hp]; rfl
      have hsettled : r.Settles now job.name 0 m :=
        settled_of_running h found phase onTime (hname ▸ hw) hbusy
      exact hsettled.mono h (Nat.zero_le _)
    | succeeded =>
      rw [hsight, hp] at hadvance
      simp only [Job.advance, phase] at hadvance
      refine settles_of_moved h found phase hadvance rfl nofun fun m' h' found' _ => ?_
      exact (settles_of_finished (job.recorded _) h' found' rfl).succ h'
    | failed =>
      rw [hp] at hsight
      by_cases hleft : job.canRetry
      · exact settles_of_retried h found phase onTime href hsight hleft
      · rw [hsight] at hadvance
        simp only [Job.advance, phase, hleft, if_false, Bool.false_eq_true] at hadvance
        refine settles_of_moved h found phase hadvance rfl nofun fun m' h' found' _ => ?_
        exact (settles_of_finished (job.recorded _) h' found' rfl).succ h'

/-- A job that waits may first have to take over a worker, which then turns out to have failed. -/
theorem settles_of_waiting (h : m.Tidy) (found : m.jobs.get? job.name = some job)
    (waits : job.Waits now) : r.Settles now job.name 5 m := by
  have alive := waits.alive
  cases hw : m.workers.get? (Worker.nameOf job) with
  | none => exact (settles_of_free job h found waits hw).mono h (by decide)
  | some worker =>
    have hrun : ∀ (m' : MemoryStore) (job' : Job), m'.Tidy → m'.jobs.get? job'.name = some job' →
        job'.status.phase = .running → job'.pastDeadline now = false →
        m'.workers.get? (Worker.nameOf job') = some worker → r.Settles now job'.name 3 m' :=
      fun m' job' h' found' phase onTime _ => settles_of_running h' found' phase onTime
    cases href : job.status.workerRef with
    | some ref =>
      exact (settles_of_met job h found waits (by rw [href]; rfl) hw hrun).succ h
    | none =>
      intro clock
      have there : (m.readied job now).workers.get? (Worker.nameOf job) = some worker :=
        h.consistent.get?_readied.trans hw
      have found' := MemoryStore.found_readied found now
      have hvisited : r.visited now clock m job.name =
          (m.readied job now).record job (naming job).status := by
        rw [visited_of_alive found alive,
          stepIn_of_missing waits (MemoryStore.sight_of_unnamed href), carriedOut_of_create rfl,
          supplied_of_taken found' (Option.isSome_of_eq_some there)]
        rfl
      have htidy := visited_tidy (r := r) h now clock job.name
      rw [hvisited] at htidy ⊢
      exact settles_of_met (naming job) htidy found_naming waits rfl there hrun

/-- A job that has not been looked at has no worker. -/
theorem settles_of_unstarted (h : m.Tidy) (found : m.jobs.get? job.name = some job)
    (phase : job.status.phase = .unstarted) : r.Settles now job.name 3 m := by
  intro clock
  have lawful := h.lawful _ _ found
  have alive : job.status.phase.terminal = false := by rw [phase]; rfl
  have hstart : job.status.startTime = none := Option.not_isSome_iff_eq_none.mp fun hsome =>
    lawful.started.mp hsome phase
  have onTime : job.pastDeadline now = false := Bool.eq_false_iff.mpr fun hlate =>
    lawful.started.mp (Job.startTime_of_pastDeadline hlate) phase
  have hready : m.readied job now = m :=
    MemoryStore.readied_of_not_pending (by rw [phase]; exact nofun)
  have hstep : r.stepIn now (m.readied job now) job = ⟨{ job.status with
      phase := .pending, startTime := job.status.startTime.or (some now), retries := 0 },
      .none, .now⟩ := by
    rw [stepIn_onTime onTime]
    simp only [Job.advance, phase]
  have hvisited := visited_of_step clock found alive hstep rfl fun heq => by
    have hphase := congrArg Job.Status.phase heq
    rw [phase] at hphase
    cases hphase
  have htidy := visited_tidy (r := r) h now clock job.name
  rw [hvisited, hready] at htidy ⊢
  refine settles_of_free (job.recorded _) htidy (MemoryStore.get?_record ..)
    ⟨rfl, Job.pastDeadline_of_start ?_⟩ (Option.eq_none_iff_forall_ne_some.mpr fun worker hw =>
      (h.admitted _ _ _ worker found hw).started phase)
  show job.status.startTime.or (some now) = some now
  rw [hstart]
  rfl

/-- **Five calm visits are enough**, whatever state the job is in. -/
theorem settles (h : m.Tidy) (name : String) : r.Settles now name 5 m := by
  cases found : m.jobs.get? name with
  | none => exact Settles.mono (i := 0) (settled_of_absent h found) h (by decide)
  | some job =>
    have named := h.consistent.named name job found
    subst named
    by_cases hlate : job.pastDeadline now
    · exact (settles_of_late h found hlate).mono h (by decide)
    · have onTime : job.pastDeadline now = false := by simpa using hlate
      cases phase : job.status.phase with
      | unstarted => exact (settles_of_unstarted h found phase).mono h (by decide)
      | pending => exact settles_of_waiting h found ⟨phase, onTime⟩
      | running => exact (settles_of_running h found phase onTime).mono h (by decide)
      | completed | failed =>
        exact (settles_of_finished job h found (by rw [phase]; rfl)).mono h (by decide)

/-! ## Coming to rest -/

/-- A store that settles has settled after so many calm visits, at whatever times. -/
theorem Settles.visits {clocks : List Instant} (hs : r.Settles now name clocks.length m)
    (h : m.Tidy) : (r.visits name (clocks.map (Visit.calm now)) m).Settled now name := by
  induction clocks generalizing m with
  | nil => exact hs
  | cons clock clocks ih =>
    show (r.visits name (clocks.map (Visit.calm now))
      (r.visit name (.calm now clock) m)).Settled _ _
    rw [visit_calm h.consistent]
    exact ih (hs clock) (visited_tidy h now clock name)

theorem Settles.calmly (hs : r.Settles now name n m) :
    (r.calmly now name n m).Settled now name := by
  induction n generalizing m with
  | zero => exact hs
  | succ n ih => exact ih (hs default)

/-- Visits of a settled store change nothing. -/
theorem calmly_of_settled (h : m.Tidy) (hs : m.Settled now name) (n : Nat) :
    r.calmly now name n m = m := by
  induction n with
  | zero => rfl
  | succ n ih =>
    show r.calmly now name n (r.visited now default m name) = m
    rw [visited_of_settled h hs, ih]

/-- From the fifth visit on, the store is the same. -/
theorem calmly_eq (h : m.Tidy) {i j : Nat} (hi : 5 ≤ i) (hj : 5 ≤ j) :
    r.calmly now name i m = r.calmly now name j m := by
  have hrest : ∀ {i : Nat}, 5 ≤ i → ∀ k, r.calmly now name (i + k) m = r.calmly now name i m := by
    intro i hi k
    rw [calmly_add]
    exact calmly_of_settled (calmly_tidy h i) ((settles h name).mono h hi).calmly k
  calc r.calmly now name i m = r.calmly now name (i + j) m := (hrest hi j).symm
    _ = r.calmly now name (j + i) m := by rw [Nat.add_comm]
    _ = r.calmly now name j m := hrest hj i

/-- Calm visits of stores that meet come to rest at stores that are alike. -/
theorem Meets.alike {m m' : MemoryStore} (hmeets : r.Meets now name m m') (h : m.Tidy)
    (h' : m'.Tidy) {i j : Nat} (hi : 5 ≤ i) (hj : 5 ≤ j) :
    (r.calmly now name i m).Alike (r.calmly now name j m') := by
  obtain ⟨a, b, hab⟩ := hmeets
  have hlater : (r.calmly now name i (r.calmly now name a m)).Alike
      (r.calmly now name i (r.calmly now name b m')) :=
    calmly_alike hab (calmly_tidy h a) (calmly_tidy h' b) i
  rw [← calmly_add, ← calmly_add] at hlater
  rw [calmly_eq h hi (by omega : 5 ≤ a + i), calmly_eq h' hj (by omega : 5 ≤ b + i)]
  exact hlater

/-- **Calm visits come to rest**, after five of them at the latest: another one changes nothing. Then
the job is gone, or it has finished and has no worker, or it runs and its only worker is the
one that it names. However many visits are disturbed before that, at whatever calls and in
whatever way, the store comes to rest at the same records, but for the numbers of their
versions and the times at which workers were created. -/
theorem visits_converge (r : Reconciler) (name : String) (now : Instant) {m : MemoryStore}
    (h : r.Sequential m) (clocks : List Instant) (hclocks : 5 ≤ clocks.length) :
    let last := r.visits name (clocks.map (Visit.calm now)) m
    (∀ clock, r.visit name (.calm now clock) last = last) ∧ last.Settled now name ∧
      ∀ (disturbed : List Visit) (clocks' : List Instant), (∀ v ∈ disturbed, v.now = now) →
        5 ≤ clocks'.length →
        (r.visits name (disturbed ++ clocks'.map (Visit.calm now)) m).Alike last := by
  intro last
  have htidy := h.tidy
  have hlast : last.Tidy := (h.visits name _).tidy
  have hsettled : last.Settled now name := ((settles htidy name).mono htidy hclocks).visits htidy
  refine ⟨fun clock => ?_, hsettled, fun disturbed clocks' hnow hclocks' => ?_⟩
  · rw [visit_calm hlast.consistent, visited_of_settled hlast hsettled]
  · obtain ⟨htidy', hmeets⟩ : (r.visits name disturbed m).Tidy ∧
        r.Meets now name (r.visits name disturbed m) m := visits_meets htidy disturbed hnow
    have hrest : (r.visits name (disturbed ++ clocks'.map (Visit.calm now)) m) =
        r.visits name (clocks'.map (Visit.calm now)) (r.visits name disturbed m) :=
      List.foldl_append ..
    rw [hrest]
    exact ((visits_calm_alike htidy' clocks').trans
      (hmeets.alike htidy' htidy hclocks' hclocks)).trans (visits_calm_alike htidy clocks).symm

/-- The job runs, and its first worker has failed. -/
def frail : MemoryStore :=
  let bell : Job.Submission := ⟨"bell", { workerImage := "aer:0.15", circuits := "[]" }⟩
  let submitted := (MemoryStore.createJob {} (bell.toJob (.ofNat 1) (.ofSecond 0))).2
  let started := visits {} "bell" ([0, 1, 2].map fun t => .calm (.ofSecond t) (.ofSecond t)) submitted
  (started.updateWorkerPhase "bell-worker-0" .failed).2

/-- The retry is recorded, but the failed worker is not deleted. -/
def cutShort : Visit :=
  ⟨.ofSecond 4, .ofSecond 4, [.answered, .answered, .answered, .before .crash]⟩

/-- The next worker is created, and the status that names it is written. Yet a conflict is answered,
and the worker is taken back. -/
def denied : Visit :=
  ⟨.ofSecond 4, .ofSecond 5,
    [.answered, .answered, .answered, .answered, .after (.conflict "bell" 5)]⟩

theorem visits_converge_frail :
    ∃ last, Sequential {} frail ∧ 5 ≤ (List.replicate 5 (Instant.ofSecond 6)).length ∧
      (visits {} "bell" [cutShort] frail).workers.keys = ["bell-worker-0"] ∧
      (visits {} "bell" [cutShort, denied] frail).workers.keys = [] ∧
      last.workers.keys = ["bell-worker-1"] ∧
      (∀ clock, visit {} "bell" (.calm (.ofSecond 4) clock) last = last) ∧
      last.Settled (.ofSecond 4) "bell" ∧
      (visits {} "bell" ([cutShort, denied] ++
        (List.replicate 7 (.ofSecond 8)).map (Visit.calm (.ofSecond 4))) frail).Alike last := by
  have hseq : Sequential {} frail := by
    refine .reported (Sequential.visits (.submitted .empty ⟨"bell", _⟩ _ _) "bell" _) _ _
  obtain ⟨hrest, hsettled, halike⟩ := visits_converge {} "bell" (.ofSecond 4) hseq
    (.replicate 5 (.ofSecond 6)) (by decide)
  exact ⟨_, hseq, by decide, by decide +kernel, by decide +kernel, by decide +kernel, hrest,
    hsettled, halike [cutShort, denied] (.replicate 7 (.ofSecond 8)) (by decide) (by decide)⟩

end Reconciler

end JobOperator
