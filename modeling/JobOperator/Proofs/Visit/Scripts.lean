import JobOperator.Proofs.Visit.Basic
import JobOperator.Proofs.Visit.Outcome

/-!
# What comes out of the script of a visit

There is one lemma for each of the scripts that an invocation consists of. It says what the script
has made of the store when it comes to its end (`Reconciler.Upshot`), and that the store is safe
wherever the script is cut short.

* `Reconciler.visit_calm`: a calm visit leaves behind what it is to leave behind.
* `Reconciler.visit_residue`: a disturbed one leaves **a residue**.
-/

namespace JobOperator.Reconciler

variable {r : Reconciler} {now clock : Instant} {m : MemoryStore} {job : Job}

/-! ## The scripts of a visit -/

/-- A script that comes to its end has done something; it gives up only if a call has gone
wrong, and leaves the store safe. -/
def Upshot {β : Type} (rough : Prop) (safe : MemoryStore → Prop)
    (finished : β → MemoryStore → Prop) : Except ReconcileError β → MemoryStore → Prop
  | .ok b, m => finished b m
  | .error _, m => rough ∧ safe m

variable {rough : Prop} {safe : MemoryStore → Prop}

theorem Upshot.imp {β : Type} {finished finished' : β → MemoryStore → Prop}
    {result : Except ReconcileError β} (h : Upshot rough safe finished result m)
    (hf : ∀ b, finished b m → finished' b m) : Upshot rough safe finished' result m := by
  cases result with
  | ok b => exact hf b h
  | error e => exact h

/-- A script has directed when to look again, and left a store. -/
def Ends (requeue : Requeue) (left : MemoryStore) (directed : Requeue) (m : MemoryStore) : Prop :=
  directed = requeue ∧ m = left

theorem removeWorker_withstands {name : String} (hm : safe m) (hgone : safe (m.without [name])) :
    (removeWorker name).Withstands rough clock safe
      (Upshot rough safe fun _ m' => m' = m.without [name]) m := by
  have hreply : m.answer clock (.deleteWorker name) = ((m.deleteWorker name).1, m.without [name]) :=
    Prod.ext rfl (m.deleteWorker_eq name)
  refine Script.withstands_call hreply hm hgone ?_ fun hrough e left he _ hleft => ?_
  · cases h : (m.deleteWorker name).1 with
    | ok _ => rfl
    | error e =>
      dsimp only
      rw [if_pos (MemoryStore.deleteWorker_eq_error h)]
      rfl
  · dsimp only
    rw [if_neg (StoreError.not_isNotFound he)]
    exact ⟨hrough, hleft⟩

/-- Workers are deleted one after another, and any of these deletions may be the last one. -/
theorem removeWorkers_withstands {names : List String}
    (hsafe : ∀ gone, gone ⊆ names → safe (m.without gone)) :
    (removeWorkers names).Withstands rough clock safe
      (Upshot rough safe fun _ m' => m' = m.without names) m := by
  induction names generalizing m with
  | nil => exact m.without_nil.symm
  | cons name names ih =>
    have hm : safe m := by simpa using hsafe [] (List.nil_subset _)
    have hone : safe (m.without [name]) := hsafe [name] (by simp)
    refine (removeWorker_withstands hm hone).bind fun result m' hm' => ?_
    cases result with
    | error e => exact hm'
    | ok _ =>
      obtain rfl := hm'
      refine (ih fun gone hgone => ?_).imp fun result m' hm' => hm'.imp fun _ h => ?_
      · rw [MemoryStore.without_without]
        exact hsafe _ (List.cons_subset_cons _ hgone)
      · rw [h, MemoryStore.without_without]
        rfl

theorem sweep_withstands (hsafe : ∀ gone, gone ⊆ m.supersededBy job → safe (m.without gone)) :
    (sweep job).Withstands rough clock safe
      (Upshot rough safe fun _ m' => m' = m.without (m.supersededBy job)) m := by
  have hm : safe m := by simpa using hsafe [] (List.nil_subset _)
  exact Script.withstands_call rfl hm hm (removeWorkers_withstands hsafe)
    fun hrough _ _ _ _ hleft => ⟨hrough, hleft⟩

theorem observe_withstands (hm : safe m) :
    (observe job).Withstands rough clock safe
      (Upshot rough safe fun seen m' => m' = m ∧ seen = m.sight job) m := by
  unfold observe MemoryStore.sight
  cases job.status.workerRef with
  | none => exact ⟨rfl, rfl⟩
  | some name =>
    have hreply : m.answer clock (.getWorker name) = (m.getWorker name, m) := rfl
    refine Script.withstands_call hreply hm hm ?_ fun hrough e left he _ hleft => ?_
    · unfold MemoryStore.getWorker
      dsimp only
      cases m.workers.get? name with
      | some worker => exact ⟨rfl, rfl⟩
      | none => exact ⟨rfl, rfl⟩
    · dsimp only
      rw [if_neg (StoreError.not_isNotFound he)]
      exact ⟨hrough, hleft⟩

/-- What asking for the worker of the current attempt has come to. -/
def Supplies (r : Reconciler) (clock : Instant) (m : MemoryStore) (job : Job) :
    Creation → MemoryStore → Prop
  | .created name, m' => name = Worker.nameOf job ∧ m.workers.get? name = none ∧
      m' = r.supplied clock m job
  | .adopted, m' => (m.workers.get? (Worker.nameOf job)).isSome ∧ m' = r.supplied clock m job
  | .ownerGone, _ => False

theorem createOrAdopt_withstands (found : m.jobs.get? job.name = some job) (hm : safe m)
    (hsupplied : safe (r.supplied clock m job)) :
    (r.createOrAdopt job).Withstands rough clock safe
      (Upshot rough safe (r.Supplies clock m job)) m := by
  obtain ⟨reply, hreply, hcreated, htaken⟩ : ∃ reply,
      m.createWorker clock (r.template.launch job) = (reply, r.supplied clock m job) ∧
      (∀ worker, reply = .ok worker →
        worker.name = Worker.nameOf job ∧ m.workers.get? worker.name = none) ∧
      ∀ e, reply = .error e → e.isAlreadyExists ∧ (m.workers.get? (Worker.nameOf job)).isSome := by
    refine ⟨(m.createWorker clock (r.template.launch job)).1, rfl, ?_⟩
    cases hw : m.workers.get? (Worker.nameOf job) with
    | none =>
      rw [MemoryStore.createWorker_free (owns_of_found found) hw]
      refine ⟨fun worker hreply => ?_, nofun⟩
      obtain rfl := Except.ok.inj hreply
      exact ⟨rfl, hw⟩
    | some worker =>
      rw [MemoryStore.createWorker_taken (owns_of_found found) (Option.isSome_of_eq_some hw)]
      refine ⟨nofun, fun e hreply => ?_⟩
      obtain rfl := Except.error.inj hreply
      exact ⟨rfl, rfl⟩
  refine Script.withstands_call hreply hm hsupplied ?_ fun hrough e left he _ hleft => ?_
  · cases reply with
    | ok worker =>
      obtain ⟨hname, free⟩ := hcreated worker rfl
      exact ⟨hname, free, rfl⟩
    | error e =>
      obtain ⟨hexists, taken⟩ := htaken e rfl
      dsimp only
      rw [if_pos hexists]
      exact ⟨taken, rfl⟩
  · dsimp only
    rw [if_neg (StoreError.not_isAlreadyExists he), if_neg (StoreError.not_isNotFound he)]
    exact ⟨hrough, hleft⟩

theorem finish_withstands {step : Step} (hm : safe m) (hdone : safe (m.relieved step.effect)) :
    (finish step).Withstands rough clock safe
      (Upshot rough safe (Ends step.requeue (m.relieved step.effect))) m := by
  unfold finish
  split
  · next name heffect =>
    rw [heffect] at hdone ⊢
    refine (removeWorker_withstands hm hdone).bind fun result m' hm' => ?_
    cases result with
    | error e => exact hm'
    | ok _ => exact ⟨rfl, hm'⟩
  · next heffect =>
    cases h : step.effect with
    | delete name => exact absurd h (heffect name)
    | create | none => exact ⟨rfl, rfl⟩

/-- `created` names the worker that may have to be taken back. -/
theorem write_withstands (step : Step) (created : Option String)
    (found : m.jobs.get? job.name = some job) (hm : safe m)
    (hupdated : safe (m.updated job step created))
    (hdone : safe ((m.updated job step created).relieved step.effect))
    (hback : ∀ worker, created = some worker → safe (m.without [worker]) ∧
      safe ((m.record job step.status).without [worker])) :
    (write job step created).Withstands rough clock safe
      (Upshot rough safe (Ends step.requeue ((m.updated job step created).relieved step.effect)))
      m := by
  unfold MemoryStore.updated at hupdated hdone ⊢
  unfold write
  split
  · next hwritten =>
    rw [if_pos hwritten] at hupdated hdone
    refine Script.withstands_call (MemoryStore.updateStatus_eq found step.status) hm hupdated
      (finish_withstands hupdated hdone) fun hrough e left he hleft hsafe => ?_
    dsimp only
    rw [if_neg (StoreError.not_isNotFound he)]
    split
    · cases created with
      | none => exact ⟨hrough, hsafe⟩
      | some worker =>
        have hgone : safe (left.without [worker]) := by
          rcases hleft with rfl | rfl
          · exact (hback worker rfl).1
          · exact (hback worker rfl).2
        refine (removeWorker_withstands hsafe hgone).bind fun result m' hm' => ?_
        cases result with
        | error e => exact hm'
        | ok _ =>
          obtain rfl := hm'
          exact ⟨hrough, hgone⟩
    · exact ⟨hrough, hsafe⟩
  · next hwritten =>
    rw [if_neg hwritten] at hdone
    exact finish_withstands hm hdone

theorem apply_withstands {step : Step} (found : m.jobs.get? job.name = some job) (hm : safe m)
    (hsupplied : step.effect = .create → safe (r.supplied clock m job))
    (hrecord : step.effect = .create ∨ step.status ≠ job.status →
      safe (m.record job step.status))
    (hdone : safe (r.carriedOut clock m job step))
    (hnamed : step.effect = .create → (m.workers.get? (Worker.nameOf job)).isSome →
      step.status ≠ job.status) :
    (r.apply job step).Withstands rough clock safe
      (Upshot rough safe (Ends step.requeue (r.carriedOut clock m job step))) m := by
  unfold apply
  split
  · next heffect =>
    rw [carriedOut_of_create heffect] at hdone ⊢
    refine (createOrAdopt_withstands found hm (hsupplied heffect)).bind fun result m' hm' => ?_
    have found' : (r.supplied clock m job).jobs.get? job.name = some job := found_supplied found
    match result, hm' with
    | .ok (.created name), ⟨hname, hfree, hm'⟩ =>
      subst hm' hname
      have hback : (r.supplied clock m job).without [Worker.nameOf job] = m :=
        MemoryStore.without_createWorker (owns_of_found found) hfree
      refine (write_withstands step (some (Worker.nameOf job)) found' (hsupplied heffect) hdone
        (by rw [heffect]; exact hdone) fun worker hworker => ?_).imp
          fun _ _ h => h.imp fun _ h => ⟨h.1, h.2.trans (by rw [heffect]; rfl)⟩
      obtain rfl := Option.some.inj hworker
      refine ⟨by rwa [hback], ?_⟩
      show safe (((r.supplied clock m job).without _).record job step.status)
      rw [hback]
      exact hrecord (.inl heffect)
    | .ok .adopted, ⟨htaken, hm'⟩ =>
      subst hm'
      have hupdated : (r.supplied clock m job).updated job step none =
          (r.supplied clock m job).record job step.status :=
        if_pos (by simpa using hnamed heffect htaken)
      exact (write_withstands step none found' (hsupplied heffect) (by rwa [hupdated])
        (by rw [heffect, hupdated]; exact hdone) nofun).imp
          fun _ _ h => h.imp fun _ h => ⟨h.1, h.2.trans (by rw [heffect, hupdated]; rfl)⟩
    | .error _, h => exact h
  · next heffect =>
    have hne : step.effect ≠ .create := fun h => heffect h
    rw [carriedOut_of_ne_create hne] at hdone ⊢
    refine write_withstands step none found hm ?_ hdone nofun
    unfold MemoryStore.updated
    split
    · next hwritten => exact hrecord (.inr (by simpa using hwritten))
    · exact hm

theorem collect_withstands {retention : Retention} (found : m.jobs.get? job.name = some job)
    (hm : safe m) (hdone : retention = .expired → safe (m.deleteJob job.name).2) :
    (collect job retention now).Withstands rough clock safe (Upshot rough safe
      (Ends (retention.requeue now)
        (if retention = .expired then (m.deleteJob job.name).2 else m))) m := by
  cases retention with
  | expired =>
    have hreply : m.answer clock (.deleteJob job.name) = (.ok (), (m.deleteJob job.name).2) :=
      MemoryStore.deleteJob_eq found
    refine Script.withstands_call hreply hm (hdone rfl) ?_ fun hrough e left he _ hleft => ?_
    · exact ⟨rfl, (if_pos rfl).symm⟩
    · dsimp only
      rw [if_neg (StoreError.not_isNotFound he)]
      exact ⟨hrough, hleft⟩
  | forever | «until» => exact ⟨rfl, (if_neg nofun).symm⟩

theorem finalize_withstands (found : m.jobs.get? job.name = some job)
    (hsafe : ∀ gone, gone ⊆ m.workersOf job.name → safe (m.without gone))
    (hdone : safe (m.wrappedUp job now)) :
    (finalize job now).Withstands rough clock safe
      (Upshot rough safe (Ends ((job.retention now).requeue now) (m.wrappedUp job now))) m := by
  have hm : safe m := by simpa using hsafe [] (List.nil_subset _)
  refine Script.withstands_call rfl hm hm ?_ fun hrough _ _ _ _ hleft => ⟨hrough, hleft⟩
  refine (removeWorkers_withstands (m := m) hsafe).bind fun result m' hm' => ?_
  cases result with
  | error e => exact hm'
  | ok _ =>
    obtain rfl := hm'
    refine collect_withstands found (hsafe _ fun _ h => h) fun hexpired => ?_
    rwa [MemoryStore.wrappedUp_of_expired hexpired] at hdone

/-- A job whose worker is asked for although it is there does not name it yet. -/
theorem stepIn_status_ne (heffect : (r.stepIn now m job).effect = .create)
    (htaken : (m.workers.get? (Worker.nameOf job)).isSome) :
    (r.stepIn now m job).status ≠ job.status := by
  have ht := job.step_transition (m.sight job) now r.pacing
  unfold stepIn at heffect ⊢
  rw [heffect] at ht
  intro heq
  have href : job.status.workerRef = some (Worker.nameOf job) := by
    rw [← heq, ht.eq_of_create]
  have hmissing := ht.of_create.2
  obtain ⟨worker, hworker⟩ := Option.isSome_iff_exists.mp htaken
  unfold MemoryStore.sight at hmissing
  rw [href] at hmissing
  dsimp only at hmissing
  rw [hworker] at hmissing
  cases hmissing

/-- What a visit has come to if it has come to its end. -/
abbrev Done (r : Reconciler) (now clock : Instant) (m : MemoryStore) (job : Job) :
    Requeue → MemoryStore → Prop :=
  Ends (r.directed now m job) (r.handled now clock m job)

/-- The step is taken in the store in which no superseded worker is left. -/
theorem apply_readied (found : m.jobs.get? job.name = some job)
    (alive : job.status.phase.terminal = false) :
    (r.apply job (r.stepIn now (m.readied job now) job)).Withstands rough clock
      (r.Residue now clock m job)
      (Upshot rough (r.Residue now clock m job) (r.Done now clock m job)) (m.readied job now) := by
  have hdone : r.handled now clock m job = _ := handled_of_alive alive
  have found' := MemoryStore.found_readied found now
  rw [Done, hdone, directed_of_alive alive]
  refine apply_withstands found' .readied (.supplied alive) (.recorded alive) ?_ stepIn_status_ne
  rw [← hdone]
  exact .completed

theorem proceed_readied (found : m.jobs.get? job.name = some job)
    (alive : job.status.phase.terminal = false) :
    (r.proceed job now).Withstands rough clock (r.Residue now clock m job)
      (Upshot rough (r.Residue now clock m job) (r.Done now clock m job)) (m.readied job now) := by
  refine (observe_withstands .readied).bind fun result m' hm' => ?_
  cases result with
  | error e => exact hm'
  | ok seen =>
    obtain ⟨rfl, rfl⟩ := hm'
    exact apply_readied found alive

theorem drive_withstands (found : m.jobs.get? job.name = some job)
    (alive : job.status.phase.terminal = false) :
    (r.drive job now).Withstands rough clock (r.Residue now clock m job)
      (Upshot rough (r.Residue now clock m job) (r.Done now clock m job)) m := by
  unfold drive
  by_cases hlate : job.pastDeadline now
  · rw [if_pos hlate]
    have hready : m.readied job now = m := if_neg fun hwaits => by simp [hwaits.2] at hlate
    rw [Job.step_of_late hlate .missing (m.sight job)]
    have happly : (r.apply job (r.stepIn now (m.readied job now) job)).Withstands rough clock _ _
        (m.readied job now) := apply_readied found alive
    rwa [hready] at happly
  · rw [if_neg hlate]
    have hproceed : (r.proceed job now).Withstands rough clock _ _ (m.readied job now) :=
      proceed_readied found alive
    split
    · next hphase =>
      have hwaits : job.Waits now := ⟨hphase, by simpa using hlate⟩
      have hready := MemoryStore.readied_of_waits (m := m) hwaits
      refine (sweep_withstands fun gone hgone => .swept hwaits hgone).bind fun result m' hm' => ?_
      cases result with
      | error e => exact hm'
      | ok _ =>
        obtain rfl := hm'
        rwa [hready] at hproceed
    · next hphase =>
      rwa [MemoryStore.readied_of_not_pending hphase] at hproceed

/-- One invocation, whatever its calls come to. -/
theorem reconcile_withstands {name : String} (found : m.jobs.get? name = some job)
    (named : job.name = name) :
    (r.reconcile name now).Withstands rough clock (r.Residue now clock m job)
      (Upshot rough (r.Residue now clock m job) (r.Done now clock m job)) m := by
  refine Script.withstands_call (MemoryStore.answer_getJob found) .untouched .untouched ?_
    fun hrough e left he _ hleft => ?_
  · subst named
    dsimp only
    split
    · next hterm =>
      have hdone : r.handled now clock m job = _ := handled_of_terminal hterm
      rw [Done, hdone, directed_of_terminal hterm]
      refine finalize_withstands found (fun gone hgone => .cleared hterm hgone) ?_
      rw [← hdone]
      exact .completed
    · next hterm => exact drive_withstands found (by simpa using hterm)
  · dsimp only
    rw [if_neg (StoreError.not_isNotFound he)]
    exact ⟨hrough, hleft⟩

/-- If there is no job of the name, there is nothing to do. -/
theorem reconcile_withstands_absent {name : String} (absent : m.jobs.get? name = none) :
    (r.reconcile name now).Withstands rough clock (· = m)
      (Upshot rough (· = m) (Ends .done m)) m := by
  have hreply : m.answer clock (.getJob name) = (.error (.notFound .job name), m) := by
    show (m.getJob name, m) = _
    unfold MemoryStore.getJob
    rw [absent]
  refine Script.withstands_call hreply rfl rfl ⟨rfl, rfl⟩ fun hrough e left he _ hleft => ?_
  dsimp only
  rw [if_neg (StoreError.not_isNotFound he)]
  exact ⟨hrough, hleft⟩

/-! ## The store after a visit -/

/-- If all calls are answered, a script directs what it is to direct. -/
theorem run_of_ends {requeue : Requeue} {left : MemoryStore}
    {s : StoreScript (Except ReconcileError Requeue)}
    (h : s.Withstands False clock safe (Upshot False safe (Ends requeue left)) m) :
    s.run (Visit.meet clock) (m, []) = (some (.ok requeue), left, []) := by
  obtain ⟨result, m', hrun, hupshot⟩ := h.run_calm
  cases result with
  | ok _ =>
    obtain ⟨rfl, rfl⟩ := hupshot
    exact hrun
  | error _ => exact hupshot.1.elim

/-- **A calm visit** makes of the store what it is to make of it. -/
theorem visit_calm (consistent : m.Consistent) (name : String) :
    r.visit name (.calm now clock) m = r.visited now clock m name := by
  cases found : m.jobs.get? name with
  | none =>
    rw [visited_of_absent found]
    exact congrArg (·.2.1) (run_of_ends (reconcile_withstands_absent found))
  | some job =>
    rw [visited_of_found found]
    exact congrArg (·.2.1)
      (run_of_ends (reconcile_withstands found (consistent.named name job found)))

/-- Without a job of the name, a visit does nothing. -/
theorem visit_absent {name : String} (absent : m.jobs.get? name = none) (v : Visit) :
    r.visit name v m = m := by
  refine (reconcile_withstands_absent absent).run (fun result m' hm' => ?_) v.courses
  cases result with
  | ok _ => exact hm'.2
  | error _ => exact hm'.2

/-- **A disturbed visit** leaves a residue behind, wherever it is disturbed. -/
theorem visit_residue {name : String} (found : m.jobs.get? name = some job)
    (named : job.name = name) (v : Visit) :
    r.Residue v.now v.clock m job (r.visit name v m) := by
  refine (reconcile_withstands found named).run (fun result m' hm' => ?_) v.courses
  cases result with
  | ok _ =>
    obtain ⟨-, rfl⟩ := hm'
    exact .completed
  | error _ => exact hm'.2

end JobOperator.Reconciler
