import JobOperator.Proofs.Visit.Alike

/-!
# Disturbed visits lead nowhere else

* `Reconciler.Meets`: calm visits of the two stores lead to stores that are alike.
* `Reconciler.Residue.meets`: whatever a disturbed visit leaves behind, calm visits lead from
  there **to where they would have led without it**. There is one case for each kind of residue:
  what has been deleted would have been deleted, a worker that is there already is taken over, a
  worker that is named but not there is asked for again, and a worker that should have been
  deleted is superseded by now, and is swept.
* `Reconciler.visits_meets`: the same of any number of disturbed visits.
-/

namespace JobOperator

/-- A job that goes on is not late because of that. -/
theorem Job.onTime_recorded {job : Job} {now : Instant} {status : Job.Status}
    (alive : job.status.phase.terminal = false) (onTime : job.pastDeadline now = false)
    (alive' : status.phase.terminal = false) (start : status.startTime = job.status.startTime) :
    (job.recorded status).pastDeadline now = false := by
  have halive : (job.recorded status).status.phase.terminal = false := alive'
  exact (pastDeadline_eq alive halive rfl start).trans onTime

/-- A job that goes back to waiting has as much time as before. -/
theorem Job.waits_recorded {job : Job} {now : Instant} {status : Job.Status}
    (alive : job.status.phase.terminal = false) (onTime : job.pastDeadline now = false)
    (phase : status.phase = .pending) (start : status.startTime = job.status.startTime) :
    (job.recorded status).Waits now :=
  ⟨phase, job.onTime_recorded alive onTime (by rw [phase]; rfl) start⟩

namespace MemoryStore

variable {m : MemoryStore} {job : Job} {now : Instant}

theorem without_congr {gone gone' : List String} (h : ∀ n, n ∈ gone ↔ n ∈ gone') :
    m.without gone = m.without gone' := by
  refine eq_of_get? rfl fun n => ?_
  rw [get?_without, get?_without]
  by_cases hn : n ∈ gone
  · rw [if_pos hn, if_pos ((h n).mp hn)]
  · rw [if_neg hn, if_neg (mt (h n).mpr hn)]

/-- It makes no difference to a sweep if some of what is to go has gone. -/
theorem Tidy.readied_without (h : m.Tidy) {gone : List String} (waits : job.Waits now)
    (old : gone ⊆ m.supersededBy job) : (m.without gone).readied job now = m.readied job now := by
  rw [readied_of_waits waits, readied_of_waits waits, without_without]
  refine without_congr fun n => ?_
  rw [List.mem_append, (h.without gone).consistent.mem_supersededBy_iff,
    h.consistent.mem_supersededBy_iff]
  constructor
  · rintro (hn | ⟨k, worker, hn, hw, hold⟩)
    · exact h.consistent.mem_supersededBy_iff.mp (old hn)
    · rw [get?_without] at hw
      split at hw
      · cases hw
      · exact ⟨k, worker, hn, hw, hold⟩
  · rintro ⟨k, worker, hn, hw, hold⟩
    by_cases hgone : n ∈ gone
    · exact .inl hgone
    · exact .inr ⟨k, worker, hn, by rw [get?_without, if_neg hgone, hw], hold⟩

/-- It makes no difference to housekeeping if some of what is to go has gone. -/
theorem Tidy.wrappedUp_without (h : m.Tidy) {gone : List String}
    (old : gone ⊆ m.workersOf job.name) :
    (m.without gone).wrappedUp job now = m.wrappedUp job now := by
  have hcleared : (m.without gone).without ((m.without gone).workersOf job.name) =
      m.without (m.workersOf job.name) := by
    rw [without_without]
    refine without_congr fun n => ?_
    rw [List.mem_append, (h.without gone).consistent.mem_workersOf_iff,
      h.consistent.mem_workersOf_iff]
    constructor
    · rintro (hn | ⟨k, worker, hn, hw⟩)
      · exact h.consistent.mem_workersOf_iff.mp (old hn)
      · rw [get?_without] at hw
        split at hw
        · cases hw
        · exact ⟨k, worker, hn, hw⟩
    · rintro ⟨k, worker, hn, hw⟩
      by_cases hgone : n ∈ gone
      · exact .inl hgone
      · exact .inr ⟨k, worker, hn, by rw [get?_without, if_neg hgone, hw]⟩
  unfold MemoryStore.wrappedUp
  rw [hcleared]

/-- There is nothing to sweep if no worker is of an earlier attempt. -/
theorem Consistent.readied_eq_self (h : m.Consistent)
    (hcurrent : ∀ k worker, m.workers.get? (Worker.nameFor job.name k) = some worker →
      ¬ k < job.status.retries) : m.readied job now = m := by
  unfold readied
  split
  · refine without_eq_self fun n hn => ?_
    obtain ⟨k, worker, rfl, hw, hold⟩ := h.mem_supersededBy_iff.mp hn
    exact absurd hold (hcurrent k worker hw)
  · rfl

/-- The sweep spares the worker of the current attempt. -/
theorem Consistent.get?_readied (h : m.Consistent) :
    (m.readied job now).workers.get? (Worker.nameOf job) =
      m.workers.get? (Worker.nameOf job) := by
  unfold readied
  split
  · rw [get?_without, if_neg]
    intro hn
    obtain ⟨k, worker, hname, -, hold⟩ := h.mem_supersededBy_iff.mp hn
    obtain ⟨-, rfl⟩ := Worker.nameFor_inj hname
    exact UInt32.lt_irrefl _ hold
  · rfl

end MemoryStore

namespace Reconciler

variable {r : Reconciler} {now clock clock' : Instant} {m m' m'' : MemoryStore} {job : Job}
  {name : String}

/-! ## Calm visits -/

theorem visited_tidy (h : m.Tidy) (now clock : Instant) (name : String) :
    (r.visited now clock m name).Tidy := by
  cases found : m.jobs.get? name with
  | none =>
    rw [visited_of_absent found]
    exact h
  | some job =>
    rw [visited_of_found found]
    have named := h.consistent.named name job found
    subst named
    have hdone : r.Residue now clock m job (r.handled now clock m job) := .completed
    exact hdone.tidy h found

/-- The store after calm visits. -/
def calmly (r : Reconciler) (now : Instant) (name : String) : Nat → MemoryStore → MemoryStore
  | 0, m => m
  | n + 1, m => r.calmly now name n (r.visited now default m name)

theorem calmly_tidy (h : m.Tidy) (n : Nat) : (r.calmly now name n m).Tidy := by
  induction n generalizing m with
  | zero => exact h
  | succ n ih => exact ih (visited_tidy h now default name)

theorem calmly_add (i j : Nat) (m : MemoryStore) :
    r.calmly now name (i + j) m = r.calmly now name j (r.calmly now name i m) := by
  induction i generalizing m with
  | zero => rw [Nat.zero_add]; rfl
  | succ i ih =>
    rw [Nat.succ_add]
    exact ih _

theorem calmly_alike (h : m.Alike m') (hm : m.Tidy) (hm' : m'.Tidy) (n : Nat) :
    (r.calmly now name n m).Alike (r.calmly now name n m') := by
  induction n generalizing m m' with
  | zero => exact h
  | succ n ih =>
    exact ih (visited_alike h hm.consistent hm'.consistent now default default name)
      (visited_tidy hm now default name) (visited_tidy hm' now default name)

/-- The clock of the store does not matter. -/
theorem visits_calm_alike (h : m.Tidy) (clocks : List Instant) :
    (r.visits name (clocks.map (Visit.calm now)) m).Alike (r.calmly now name clocks.length m) := by
  induction clocks generalizing m with
  | nil => exact .refl m
  | cons clock clocks ih =>
    have htidy := visited_tidy (r := r) h now clock name
    have hfirst := visited_alike (r := r) (.refl m) h.consistent h.consistent now clock default name
    show (r.visits name (clocks.map (Visit.calm now)) (r.visit name (.calm now clock) m)).Alike _
    rw [visit_calm h.consistent]
    exact (ih htidy).trans (calmly_alike hfirst htidy (visited_tidy h now default name) _)

/-! ## Stores that meet -/

/-- Calm visits of the two stores lead to stores that are alike. -/
def Meets (r : Reconciler) (now : Instant) (name : String) (m m' : MemoryStore) : Prop :=
  ∃ i j, (r.calmly now name i m).Alike (r.calmly now name j m')

theorem Meets.of_alike (h : m.Alike m') : r.Meets now name m m' := ⟨0, 0, h⟩

theorem Meets.symm (h : r.Meets now name m m') : r.Meets now name m' m := by
  obtain ⟨i, j, hij⟩ := h
  exact ⟨j, i, hij.symm⟩

theorem Meets.trans (h : r.Meets now name m m') (h' : r.Meets now name m' m'') (hm : m.Tidy)
    (hm' : m'.Tidy) (hm'' : m''.Tidy) : r.Meets now name m m'' := by
  obtain ⟨i, j, hij⟩ := h
  obtain ⟨k, l, hkl⟩ := h'
  -- visits are added to both pairs, until the stores in the middle have had as many
  refine ⟨i + k, l + j, ?_⟩
  have hleft : (r.calmly now name (i + k) m).Alike (r.calmly now name (k + j) m') := by
    rw [Nat.add_comm k j, calmly_add, calmly_add]
    exact calmly_alike hij (calmly_tidy hm i) (calmly_tidy hm' j) k
  have hright : (r.calmly now name (k + j) m').Alike (r.calmly now name (l + j) m'') := by
    rw [calmly_add, calmly_add]
    exact calmly_alike hkl (calmly_tidy hm' k) (calmly_tidy hm'' l) j
  exact hleft.trans hright

/-- A calm visit leads nowhere else. -/
theorem Meets.visited (h : m.Tidy) (clock : Instant) :
    r.Meets now name (r.visited now clock m name) m :=
  ⟨0, 1, visited_alike (.refl m) h.consistent h.consistent now clock default name⟩

/-- Stores from which calm visits lead to the same place meet. -/
theorem Meets.of_visited (clock clock' : Instant) (hm : m.Tidy) (hm' : m'.Tidy)
    (h : (r.visited now clock m name).Alike (r.visited now clock' m' name)) :
    r.Meets now name m m' := by
  have hleft := visited_alike (r := r) (.refl m) hm.consistent hm.consistent now default clock name
  have hright := visited_alike (r := r) (.refl m') hm'.consistent hm'.consistent now clock' default
    name
  exact ⟨1, 1, (hleft.trans h).trans hright⟩

theorem meets_without_superseded (h : m.Tidy) (found : m.jobs.get? job.name = some job)
    (waits : job.Waits now) {gone : List String} (old : gone ⊆ m.supersededBy job) :
    r.Meets now job.name (m.without gone) m := by
  have alive := waits.alive
  have found' : (m.without gone).jobs.get? job.name = some job := found
  refine .of_visited default default (h.without gone) h ?_
  rw [visited_of_alive found' alive, visited_of_alive found alive, h.readied_without waits old]
  exact .refl _

theorem meets_without_finished (h : m.Tidy) (found : m.jobs.get? job.name = some job)
    (terminal : job.status.phase.terminal) {gone : List String}
    (old : gone ⊆ m.workersOf job.name) : r.Meets now job.name (m.without gone) m := by
  have found' : (m.without gone).jobs.get? job.name = some job := found
  refine .of_visited default default (h.without gone) h ?_
  rw [visited_of_found found', visited_of_found found, handled_of_terminal terminal,
    handled_of_terminal terminal, h.wrappedUp_without old]
  exact .refl _

/-! ## What a disturbed visit leaves behind -/

/-- Once it is swept, the store of a job that asks for a worker has workers of no other attempt
than the current one. -/
theorem current_of_create (h : m.Tidy) (found : m.jobs.get? job.name = some job)
    (heffect : (r.stepIn now (m.readied job now) job).effect = .create) {k : UInt32}
    {worker : Worker}
    (hw : (m.readied job now).workers.get? (Worker.nameFor job.name k) = some worker) :
    ¬ k < job.status.retries := by
  rw [h.current_of_readied found (stepIn_of_create heffect).1 hw]
  exact UInt32.lt_irrefl _

/-- A worker that has been asked for, and that no status names yet, is taken over. -/
theorem meets_supplied (h : m.Tidy) (found : m.jobs.get? job.name = some job)
    (heffect : (r.stepIn now (m.readied job now) job).effect = .create) :
    r.Meets now job.name (r.supplied clock (m.readied job now) job) m := by
  obtain ⟨hwaits, hsight, hstatus⟩ := stepIn_of_create heffect
  have alive := hwaits.alive
  have hbase := h.readied job now
  have found' := MemoryStore.found_readied found now
  generalize hm' : r.supplied clock (m.readied job now) job = m'
  have htidy : m'.Tidy := by
    rw [← hm']
    exact (supplied_tidy hbase found' heffect).1
  have found'' : m'.jobs.get? job.name = some job := by
    rw [← hm']
    exact found_supplied found'
  have hvisited : r.visited now clock m job.name = m'.record job (naming job).status := by
    rw [visited_of_alive found alive, carriedOut_of_create heffect, hm', hstatus]
    rfl
  have htaken : (m'.workers.get? (Worker.nameOf job)).isSome := by
    rw [← hm', get?_supplied found', if_pos rfl]
    rfl
  cases href : job.status.workerRef with
  | some n =>
    -- the job has named its worker before, so that only the version changes
    have hn : n = Worker.nameOf job := (h.lawful _ _ found).named n href
    have hsame : (naming job).status = job.status := by
      unfold naming
      rw [← hn, ← href]
      rfl
    rw [hsame] at hvisited
    refine (Meets.of_alike ?_).trans (Meets.visited h clock) htidy (visited_tidy h now clock _) h
    rw [hvisited]
    exact .record_self found''
  | none =>
    have hready : m'.readied job now = m' := htidy.consistent.readied_eq_self fun k worker hw => by
      rw [← hm', get?_supplied found'] at hw
      split at hw
      · next hname =>
        obtain ⟨-, rfl⟩ := Worker.nameFor_inj hname
        exact UInt32.lt_irrefl _
      · exact current_of_create h found heffect hw
    have hmissing : m'.sight job = .missing := by
      unfold MemoryStore.sight
      rw [href]
    refine .of_visited default clock htidy h ?_
    rw [hvisited, visited_of_alive found'' alive, hready, stepIn_of_missing hwaits hmissing,
      carriedOut_of_create rfl, supplied_of_taken found'' htaken]
    exact .refl _

/-- A worker that is named, and that nobody has asked for or that was taken back, is asked for
again. -/
theorem meets_named (h : m.Tidy) (found : m.jobs.get? job.name = some job)
    (heffect : (r.stepIn now (m.readied job now) job).effect = .create) :
    r.Meets now job.name ((m.readied job now).record job
      (r.stepIn now (m.readied job now) job).status) m := by
  obtain ⟨hwaits, hsight, hstatus⟩ := stepIn_of_create heffect
  have alive := hwaits.alive
  have hcurrent : ∀ k worker, (m.readied job now).workers.get? (Worker.nameFor job.name k) =
      some worker → ¬ k < job.status.retries := fun _ _ => current_of_create h found heffect
  have hvisited : ∀ clock, r.visited now clock m job.name =
      (r.supplied clock (m.readied job now) job).record job (naming job).status := fun clock => by
    rw [visited_of_alive found alive, carriedOut_of_create heffect, hstatus]
    rfl
  have hresidue : r.Residue now default m job ((m.readied job now).record job
      (r.stepIn now (m.readied job now) job).status) := .recorded alive (.inl heffect)
  have htidy := hresidue.tidy h found
  rw [hstatus] at htidy ⊢
  have found' := MemoryStore.found_readied found now
  generalize m.readied job now = base at *
  show r.Meets now job.name (base.record job (naming job).status) m
  cases hw : base.workers.get? (Worker.nameOf job) with
  | some worker =>
    -- there was nobody to ask for, and the visit is complete
    have hcomplete : base.record job (naming job).status = r.visited now default m job.name := by
      rw [hvisited, supplied_of_taken found' (Option.isSome_of_eq_some hw)]
    rw [hcomplete]
    exact .visited h default
  | none =>
    have hready : (base.record job (naming job).status).readied (naming job) now =
        base.record job (naming job).status := htidy.consistent.readied_eq_self hcurrent
    have hmissing : (base.record job (naming job).status).sight (naming job) = .missing :=
      MemoryStore.sight_of_gone (rfl : _ = some (Worker.nameOf job)) hw
    have hnaming : r.visited now default (base.record job (naming job).status) job.name =
        ((r.supplied default base job).record job (naming job).status).record (naming job)
          (naming job).status := by
      have hwaits' : (naming job).Waits now := hwaits
      have hvisit : r.visited now default (base.record job (naming job).status)
          (naming job).name = _ := visited_of_alive found_naming alive
      rw [hready, stepIn_of_missing hwaits' hmissing, carriedOut_of_create rfl,
        supplied_naming found' hw] at hvisit
      exact hvisit
    refine .of_visited default default htidy h ?_
    rw [hnaming, hvisited]
    exact (MemoryStore.Alike.record_self found_naming).symm

/-- A failed worker that is still there when the retry is recorded is superseded. -/
theorem meets_retried (h : m.Tidy) (found : m.jobs.get? job.name = some job) {worker : String}
    (heffect : (r.stepIn now (m.readied job now) job).effect = .delete worker) :
    r.Meets now job.name ((m.readied job now).record job
      (r.stepIn now (m.readied job now) job).status) m := by
  obtain ⟨hlate, hphase, hleft, hworker, hstatus⟩ := stepIn_of_delete heffect
  have alive : job.status.phase.terminal = false := by rw [hphase]; rfl
  have hready : m.readied job now = m :=
    MemoryStore.readied_of_not_pending (by rw [hphase]; exact nofun)
  have changed : (r.stepIn now (m.readied job now) job).status ≠ job.status := fun heq => by
    have hphase' := congrArg Job.Status.phase (hstatus.symm.trans heq)
    rw [hphase] at hphase'
    cases hphase'
  have hresidue : r.Residue now default m job ((m.readied job now).record job
      (r.stepIn now (m.readied job now) job).status) := .recorded alive (.inr changed)
  have htidy := hresidue.tidy h found
  have hvisited : r.visited now default m job.name = _ := visited_of_alive found alive
  rw [carriedOut_of_changed (by rw [heffect]; exact nofun) changed, heffect] at hvisited
  rw [hready] at htidy hvisited hstatus ⊢
  have hmeets : r.Meets now job.name
      ((m.record job (r.stepIn now m job).status).without [worker]) m := by
    show r.Meets now job.name (MemoryStore.relieved _ (.delete worker)) m
    rw [← hvisited]
    exact .visited h default
  generalize (r.stepIn now m job).status = status at htidy hmeets hstatus ⊢
  have hname : worker = Worker.nameOf job := hworker.trans (h.lawful _ _ found).getD_workerRef
  cases hw : m.workers.get? worker with
  | none =>
    -- there was nothing to delete
    have hsame : (m.record job status).without [worker] = m.record job status :=
      MemoryStore.without_eq_self fun n hn => by
        obtain rfl := List.mem_singleton.mp hn
        exact hw
    rwa [hsame] at hmeets
  | some failed =>
    have hwaits : (job.recorded status).Waits now :=
      Job.waits_recorded alive hlate (by rw [hstatus]) (by rw [hstatus])
    have hold : job.status.retries < status.retries := by
      rw [hstatus, UInt32.lt_iff_toNat_lt]
      dsimp only
      rw [Job.toNat_succ_of_lt hleft]
      exact Nat.lt_succ_self _
    have hsuperseded : [worker] ⊆ (m.record job status).supersededBy (job.recorded status) :=
      fun n hn => by
        obtain rfl := List.mem_singleton.mp hn
        exact htidy.consistent.mem_supersededBy_iff.mpr ⟨_, failed, hname, hw, hold⟩
    have hswept : r.Meets now job.name ((m.record job status).without [worker])
        (m.record job status) :=
      meets_without_superseded htidy (m.get?_record job status) hwaits hsuperseded
    exact hswept.symm.trans hmeets htidy (htidy.without _) h

/-- **Whatever a visit leaves behind**, calm visits lead from there to where they would have led
without it. -/
theorem Residue.meets (h : m.Tidy) (found : m.jobs.get? job.name = some job)
    (hres : r.Residue now clock m job m') : r.Meets now job.name m' m := by
  cases hres with
  | untouched => exact .of_alike (.refl m)
  | swept waits old => exact meets_without_superseded h found waits old
  | cleared terminal old => exact meets_without_finished h found terminal old
  | supplied _ heffect => exact meets_supplied h found heffect
  | recorded alive changed =>
    cases heffect : (r.stepIn now (m.readied job now) job).effect with
    | create => exact meets_named h found heffect
    | delete worker => exact meets_retried h found heffect
    | none =>
      have hcomplete : r.visited now default m job.name = (m.readied job now).record job
          (r.stepIn now (m.readied job now) job).status := by
        have hne : (r.stepIn now (m.readied job now) job).effect ≠ .create := by
          rw [heffect]
          exact nofun
        rw [visited_of_alive found alive, carriedOut_of_changed hne (changed.resolve_left hne),
          heffect]
        rfl
      rw [← hcomplete]
      exact .visited h default
  | completed =>
    rw [← visited_of_found found]
    exact .visited h clock

/-- **Disturbed visits lead nowhere else**, however many there are. -/
theorem visits_meets (h : m.Tidy) (vs : List Visit) (hnow : ∀ v ∈ vs, v.now = now) :
    (r.visits name vs m).Tidy ∧ r.Meets now name (r.visits name vs m) m := by
  induction vs generalizing m with
  | nil => exact ⟨h, .of_alike (.refl m)⟩
  | cons v vs ih =>
    have hv : (r.visit name v m).Tidy ∧ r.Meets now name (r.visit name v m) m := by
      cases found : m.jobs.get? name with
      | none =>
        rw [visit_absent found]
        exact ⟨h, .of_alike (.refl m)⟩
      | some job =>
        have named := h.consistent.named name job found
        subst named
        have hres := visit_residue (r := r) found rfl v
        rw [hnow v (List.mem_cons_self ..)] at hres
        exact ⟨hres.tidy h found, hres.meets h found⟩
    obtain ⟨htidy, hmeets⟩ := ih hv.1 fun v hv => hnow v (List.mem_cons_of_mem _ hv)
    exact ⟨htidy, hmeets.trans hv.2 htidy hv.1 h⟩

end Reconciler

end JobOperator
