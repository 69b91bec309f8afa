import JobOperator.Lifecycle.Reconcile
import JobOperator.Proofs.Lifecycle.Status
import JobOperator.Proofs.Transcript
import JobOperator.Store.Operation

/-!
# The discipline of an invocation

What an invocation asks of the store, and when, whatever the store answers.

* `Reconciler.Rule`: for each call, what an invocation has found out before it makes it.
  Everything goes back to one reading of the job, which is the first thing that an
  invocation does; the status is written at most once, against that reading; and a
  worker is deleted for one of four reasons (`Reconciler.Removes`).
* `Reconciler.reconcile_obeys`: an invocation obeys the rule. The proof has one lemma
  for each of the scripts that an invocation consists of, in the order in which they
  are defined.

The rule speaks of the transcript alone. That an answer is true is a matter of who gives
it.
-/

namespace JobOperator

/-- What a program over a store has asked and was answered, oldest first. -/
abbrev StoreTranscript := List (Script.Exchange StoreCall StoreCall.Answer)

/-- A call and what follows it: the call is made by the rule, and the rest as well. -/
theorem StoreScript.obeys_call {α : Type} {rule : StoreTranscript → StoreCall → Prop}
    {post : StoreTranscript → α → Prop} {log : StoreTranscript} {c : StoreCall}
    {f : c.Answer → StoreScript α} (hc : rule log c)
    (hf : ∀ reply, (f reply).Obeys rule post (log ++ [⟨c, reply⟩])) :
    (StoreScript.call c >>= f).Obeys rule post log :=
  ⟨hc, hf⟩

/-- The grounds on which an invocation says what it sees of the worker of a job. -/
inductive Job.Sees (job : Job) (now : Instant) (log : StoreTranscript) : Observation → Prop where
  /-- a job past its deadline is not looked at -/
  | late (late : job.pastDeadline now) : Sees job now log .missing
  /-- the job names no worker -/
  | unnamed (unnamed : job.status.workerRef = none) : Sees job now log .missing
  /-- the worker that the job names is not there -/
  | absent {worker : String} {e : StoreError} (named : job.status.workerRef = some worker)
      (asked : ⟨.getWorker worker, .error e⟩ ∈ log) (gone : e.isNotFound) :
      Sees job now log .missing
  /-- the worker that the job names is there -/
  | present {name : String} {worker : Worker} (named : job.status.workerRef = some name)
      (asked : ⟨.getWorker name, .ok worker⟩ ∈ log) : Sees job now log (.found worker.phase)

/-- What is seen stays seen. -/
theorem Job.Sees.mono {job : Job} {now : Instant} {log log' : StoreTranscript} {seen : Observation}
    (h : job.Sees now log seen) (hsub : log ⊆ log') : job.Sees now log' seen := by
  cases h with
  | late hl => exact .late hl
  | unnamed hn => exact .unnamed hn
  | absent hn ha hg => exact .absent hn (hsub ha) hg
  | present hn ha => exact .present hn (hsub ha)

/-- Who sees a worker has a name for it. -/
theorem Job.Sees.isSome_of_found {job : Job} {now : Instant} {log : StoreTranscript}
    {p : Worker.Phase} (h : job.Sees now log (.found p)) : job.status.workerRef.isSome := by
  cases h with
  | present hn _ => rw [hn]; rfl

namespace Reconciler

variable {r : Reconciler} {name : String} {now : Instant} {log : StoreTranscript} {job : Job}

/-- The invocation has read a job; that was the first thing it did. -/
def HasRead (name : String) (log : StoreTranscript) (job : Job) : Prop :=
  log.head? = some ⟨.getJob name, .ok job⟩

/-- No status has been written yet. -/
def Unwritten (log : StoreTranscript) : Prop :=
  ∀ x ∈ log, x.question.operation ≠ .updateStatus

/-- The worker of the current attempt has been asked for, and is there. -/
def Launched (r : Reconciler) (log : StoreTranscript) (job : Job) : Prop :=
  (∃ worker, ⟨.createWorker (r.template.launch job), .ok worker⟩ ∈ log) ∨
    ∃ e : StoreError, e.isAlreadyExists ∧ ⟨.createWorker (r.template.launch job), .error e⟩ ∈ log

/-- The reasons for which an invocation deletes a worker. -/
inductive Removes (r : Reconciler) (now : Instant) (log : StoreTranscript) (job : Job) :
    String → Prop where
  /-- it belongs to an attempt that the job has moved past -/
  | superseded {workers : List Worker} {worker : Worker} (unwritten : Unwritten log)
      (listed : ⟨.listWorkers (some job.name), .ok workers⟩ ∈ log) (mem : worker ∈ workers)
      (old : superseded job worker) : Removes r now log job worker.name
  /-- its job has finished -/
  | residual {workers : List Worker} {worker : Worker} (unwritten : Unwritten log)
      (listed : ⟨.listWorkers (some job.name), .ok workers⟩ ∈ log) (mem : worker ∈ workers)
      (terminal : job.status.phase.terminal) : Removes r now log job worker.name
  /-- this invocation has created it, and has lost the race for the status -/
  | rolledBack {before : StoreTranscript} {worker : Worker} {written : Job} {e : StoreError}
      (last : log = before ++ [⟨.createWorker (r.template.launch job), .ok worker⟩,
        ⟨.updateStatus written, .error e⟩])
      (conflict : e.isConflict) : Removes r now log job worker.name
  /-- it has failed, and the next attempt is recorded -/
  | retried {before : StoreTranscript} {seen : Observation} {stored : Job} {worker : String}
      (unwritten : Unwritten before)
      (last : log = before ++
        [⟨.updateStatus { job with status := (job.step seen now r.pacing).status }, .ok stored⟩])
      (effect : (job.step seen now r.pacing).effect = .delete worker) : Removes r now log job worker

/-- What an invocation has found out before it makes a call. -/
def Rule (r : Reconciler) (name : String) (now : Instant) (log : StoreTranscript) :
    StoreCall → Prop
  | .getJob asked => asked = name ∧ log = []
  | .getWorker worker => ∃ job, HasRead name log job ∧ job.status.workerRef = some worker
  | .listWorkers owner => ∃ job, HasRead name log job ∧ owner = some job.name
  | .createWorker launch => ∃ job, HasRead name log job ∧ Unwritten log ∧
      job.status.phase = .pending ∧ job.Sees now log .missing ∧ launch = r.template.launch job
  | .updateStatus written => ∃ job seen, HasRead name log job ∧ Unwritten log ∧
      job.status.phase.terminal = false ∧ job.Sees now log seen ∧
      written = { job with status := (job.step seen now r.pacing).status } ∧
      ((job.step seen now r.pacing).effect = .create → Launched r log job)
  | .deleteWorker worker => ∃ job, HasRead name log job ∧ r.Removes now log job worker
  | .deleteJob asked => ∃ job, HasRead name log job ∧ asked = job.name ∧
      job.status.phase.terminal ∧ job.retention now = .expired
  | .createJob _ | .listJobs | .updateWorkerPhase _ _ => False

/-! ## Facts about transcripts -/

theorem HasRead.append (h : HasRead name log job) (more : StoreTranscript) :
    HasRead name (log ++ more) job := by
  unfold HasRead at h ⊢
  rw [List.head?_append, h]
  rfl

/-- The first call of a transcript does not depend on how it goes on. -/
theorem HasRead.of_append {more : StoreTranscript}
    {x : Script.Exchange StoreCall StoreCall.Answer} (h : HasRead name (log ++ more) job)
    (hx : x ∈ log) : HasRead name log job := by
  cases log with
  | nil => cases hx
  | cons first rest => exact h

theorem HasRead.mem (h : HasRead name log job) : ⟨.getJob name, .ok job⟩ ∈ log :=
  List.mem_of_mem_head? h

/-- There is only one reading. -/
theorem HasRead.unique {job' : Job} (h : HasRead name log job) (h' : HasRead name log job') :
    job = job' := by
  have heq := Script.Exchange.reply_inj (Option.some.inj (h.symm.trans h'))
  exact Except.ok.inj heq

theorem Unwritten.append {x : Script.Exchange StoreCall StoreCall.Answer} (h : Unwritten log)
    (hx : x.question.operation ≠ .updateStatus) : Unwritten (log ++ [x]) := by
  intro y hy
  rcases List.mem_append.mp hy with hy | hy
  · exact h y hy
  · obtain rfl := List.mem_singleton.mp hy
    exact hx

/-- A status that has been written has been written. -/
theorem Unwritten.not_mem {written : Job} {reply : Except StoreError Job} (h : Unwritten log) :
    ⟨.updateStatus written, reply⟩ ∉ log :=
  fun hm => h _ hm rfl

/-! ## The scripts of an invocation -/

/-- Until it writes, an invocation has a job that it has read. -/
def Looking (name : String) (job : Job) (log : StoreTranscript) : Prop :=
  HasRead name log job ∧ Unwritten log

theorem Looking.append {x : Script.Exchange StoreCall StoreCall.Answer} (h : Looking name job log)
    (hx : x.question.operation ≠ .updateStatus) : Looking name job (log ++ [x]) :=
  ⟨h.1.append _, h.2.append hx⟩

theorem removeWorker_obeys {rule : StoreTranscript → StoreCall → Prop}
    {post : StoreTranscript → Except ReconcileError Unit → Prop} {worker : String}
    (hrule : rule log (.deleteWorker worker))
    (hpost : ∀ reply result, post (log ++ [⟨.deleteWorker worker, reply⟩]) result) :
    (removeWorker worker).Obeys rule post log := by
  refine StoreScript.obeys_call hrule fun reply => ?_
  cases reply with
  | ok _ => exact hpost _ _
  | error e => exact hpost _ _

/-- The workers of the job have been listed, and nothing has been written since. -/
def Listed (name : String) (job : Job) (workers : List Worker) (log : StoreTranscript) : Prop :=
  Looking name job log ∧ ⟨.listWorkers (some job.name), .ok workers⟩ ∈ log

theorem Listed.first {workers : List Worker} (h : Looking name job log) :
    Listed name job workers (log ++ [⟨.listWorkers (some job.name), .ok workers⟩]) :=
  ⟨h.append nofun, List.mem_append_right _ (List.mem_singleton.mpr rfl)⟩

/-- The listing stays in the transcript while workers are deleted one after another. -/
theorem removeWorkers_obeys {workers : List Worker} {names : List String}
    (hrule : ∀ log, Listed name job workers log → ∀ w ∈ names, r.Removes now log job w)
    (h : Listed name job workers log) :
    (removeWorkers names).Obeys (r.Rule name now) (fun log _ => Listed name job workers log)
      log := by
  induction names generalizing log with
  | nil => exact h
  | cons w names ih =>
    have hw : (removeWorker w).Obeys (r.Rule name now) (fun log _ => Listed name job workers log)
        log :=
      removeWorker_obeys ⟨job, h.1.1, hrule log h w (List.mem_cons_self ..)⟩
        fun _ _ => ⟨h.1.append nofun, List.mem_append_left _ h.2⟩
    refine hw.bind fun log result hlog => ?_
    cases result with
    | ok _ => exact ih (fun log hl w hw => hrule log hl w (List.mem_cons_of_mem _ hw)) hlog
    | error _ => exact hlog

theorem sweep_obeys (h : Looking name job log) :
    (sweep job).Obeys (r.Rule name now) (fun log _ => Looking name job log) log := by
  refine StoreScript.obeys_call ⟨job, h.1, rfl⟩ fun reply => ?_
  cases reply with
  | error _ => exact h.append nofun
  | ok workers =>
    refine (removeWorkers_obeys (fun log hlist w hw => ?_) (.first h)).imp fun _ _ hlist => hlist.1
    obtain ⟨worker, hworker, rfl⟩ := List.mem_map.mp hw
    obtain ⟨hmem, hold⟩ := List.mem_filter.mp hworker
    exact .superseded hlist.1.2 hlist.2 hmem hold

theorem observe_obeys (h : Looking name job log) :
    (observe job).Obeys (r.Rule name now)
      (fun log result => Looking name job log ∧ ∀ seen, result = .ok seen → job.Sees now log seen)
      log := by
  unfold observe
  split
  · next href =>
    exact ⟨h, fun seen hs => by cases hs; exact .unnamed href⟩
  · next worker href =>
    refine StoreScript.obeys_call ⟨job, h.1, href⟩ fun reply => ?_
    have hlook := h.append (x := ⟨.getWorker worker, reply⟩) nofun
    have hlast : ⟨.getWorker worker, reply⟩ ∈ log ++ [⟨.getWorker worker, reply⟩] :=
      List.mem_append_right _ (List.mem_singleton.mpr rfl)
    cases reply with
    | ok w => exact ⟨hlook, fun seen hs => by cases hs; exact .present href hlast⟩
    | error e =>
      refine ⟨hlook, fun seen hs => ?_⟩
      by_cases hgone : e.isNotFound
      · rw [if_pos hgone] at hs
        cases hs
        exact .absent href hlast hgone
      · rw [if_neg hgone] at hs
        cases hs

/-- What is known once the worker has been asked for. -/
def Asked (r : Reconciler) (name : String) (now : Instant) (job : Job) (log : StoreTranscript) :
    Except ReconcileError Creation → Prop
  | .ok (.created worker) => Looking name job log ∧ job.Sees now log .missing ∧
      ∃ before w, log = before ++ [⟨.createWorker (r.template.launch job), .ok w⟩] ∧ worker = w.name
  | .ok .adopted => Looking name job log ∧ job.Sees now log .missing ∧ r.Launched log job
  | .ok .ownerGone | .error _ => True

theorem createOrAdopt_obeys (h : Looking name job log) (hp : job.status.phase = .pending)
    (hseen : job.Sees now log .missing) :
    (r.createOrAdopt job).Obeys (r.Rule name now) (r.Asked name now job) log := by
  refine StoreScript.obeys_call ⟨job, h.1, h.2, hp, hseen, rfl⟩ fun reply => ?_
  have hlook := h.append (x := ⟨.createWorker (r.template.launch job), reply⟩) nofun
  have hsees := hseen.mono (List.subset_append_left log
    [⟨.createWorker (r.template.launch job), reply⟩])
  cases reply with
  | ok w => exact ⟨hlook, hsees, log, w, rfl, rfl⟩
  | error e =>
    simp only [Script.pure_eq, Script.obeys_done]
    by_cases hexists : e.isAlreadyExists
    · rw [if_pos hexists]
      exact ⟨hlook, hsees, .inr ⟨e, hexists, List.mem_append_right _ (List.mem_singleton.mpr rfl)⟩⟩
    · rw [if_neg hexists]
      by_cases hgone : e.isNotFound
      · rw [if_pos hgone]
        trivial
      · rw [if_neg hgone]
        trivial

theorem finish_obeys {rule : StoreTranscript → StoreCall → Prop} {step : Step}
    (hrule : ∀ worker, step.effect = .delete worker → rule log (.deleteWorker worker)) :
    (finish step).Obeys rule (fun _ _ => True) log := by
  unfold finish
  split
  · next worker heffect =>
    have hw : (removeWorker worker).Obeys rule (fun _ _ => True) log :=
      removeWorker_obeys (hrule worker heffect) fun _ _ => trivial
    refine hw.bind fun _ result _ => ?_
    cases result <;> trivial
  · trivial

/-- `created` names the worker that the last call has created, if it has. -/
theorem write_obeys {seen : Observation} {created : Option String} (h : Looking name job log)
    (alive : job.status.phase.terminal = false) (hseen : job.Sees now log seen)
    (hlaunched : (job.step seen now r.pacing).effect = .create → r.Launched log job)
    (hcreated : ∀ worker, created = some worker → ∃ before w,
      log = before ++ [⟨.createWorker (r.template.launch job), .ok w⟩] ∧ worker = w.name) :
    (write job (job.step seen now r.pacing) created).Obeys (r.Rule name now) (fun _ _ => True)
      log := by
  unfold write
  split
  · refine StoreScript.obeys_call
      ⟨job, seen, h.1, h.2, alive, hseen, rfl, hlaunched⟩ fun reply => ?_
    cases reply with
    | ok stored =>
      exact finish_obeys fun worker heffect =>
        ⟨job, h.1.append _, .retried h.2 rfl heffect⟩
    | error e =>
      dsimp only
      split
      · trivial
      · split
        · next hconflict =>
          cases created with
          | none => trivial
          | some worker =>
            obtain ⟨before, w, hlog, rfl⟩ := hcreated worker rfl
            have hgone : r.Removes now (log ++ [⟨.updateStatus { job with
                status := (job.step seen now r.pacing).status }, .error e⟩]) job w.name :=
              .rolledBack (by rw [hlog, List.append_assoc, List.singleton_append]) hconflict
            have hw : (removeWorker w.name).Obeys (r.Rule name now) (fun _ _ => True) _ :=
              removeWorker_obeys ⟨job, h.1.append _, hgone⟩ fun _ _ => trivial
            exact hw.bind fun _ _ _ => trivial
        · trivial
  · next hsame =>
    -- nothing was written because nothing changes, so no worker is deleted either
    refine finish_obeys fun worker heffect => absurd ?_ hsame
    have ht := job.step_transition seen now r.pacing
    rw [heffect] at ht
    simp [ht.ne_of_delete]

theorem apply_obeys {seen : Observation} (h : Looking name job log)
    (alive : job.status.phase.terminal = false) (hseen : job.Sees now log seen) :
    (r.apply job (job.step seen now r.pacing)).Obeys (r.Rule name now) (fun _ _ => True) log := by
  unfold apply
  split
  · next heffect =>
    have ht := job.step_transition seen now r.pacing
    rw [heffect] at ht
    obtain ⟨hp, rfl⟩ := ht.of_create
    refine (createOrAdopt_obeys h hp hseen).bind fun log result hasked => ?_
    match result, hasked with
    | .ok (.created worker), ⟨hlook, hsees, before, w, hlog, hname⟩ =>
      refine write_obeys hlook alive hsees (fun _ => .inl ⟨w, ?_⟩) fun worker' hw => ?_
      · rw [hlog]
        exact List.mem_append_right _ (List.mem_singleton.mpr rfl)
      · obtain rfl := Option.some.inj hw
        exact ⟨before, w, hlog, hname⟩
    | .ok .adopted, ⟨hlook, hsees, hl⟩ => exact write_obeys hlook alive hsees (fun _ => hl) nofun
    | .ok .ownerGone, _ => trivial
    | .error _, _ => trivial
  · next heffect => exact write_obeys h alive hseen (fun hc => absurd hc heffect) nofun

theorem collect_obeys (h : HasRead name log job) (terminal : job.status.phase.terminal) :
    (collect job (job.retention now) now).Obeys (r.Rule name now) (fun _ _ => True) log := by
  unfold collect
  split
  · next hexpired =>
    refine StoreScript.obeys_call ⟨job, h, rfl, terminal, hexpired⟩ fun reply => ?_
    cases reply <;> trivial
  · trivial

theorem finalize_obeys (h : Looking name job log) (terminal : job.status.phase.terminal) :
    (finalize job now).Obeys (r.Rule name now) (fun _ _ => True) log := by
  refine StoreScript.obeys_call ⟨job, h.1, rfl⟩ fun reply => ?_
  cases reply with
  | error _ => trivial
  | ok workers =>
    refine (removeWorkers_obeys (fun log hlist w hw => ?_) (.first h)).bind
      fun log result hlist => ?_
    · obtain ⟨worker, hmem, rfl⟩ := List.mem_map.mp hw
      exact .residual hlist.1.2 hlist.2 hmem terminal
    · cases result with
      | ok _ => exact collect_obeys hlist.1.1 terminal
      | error _ => trivial

theorem proceed_obeys (h : Looking name job log) (alive : job.status.phase.terminal = false) :
    (r.proceed job now).Obeys (r.Rule name now) (fun _ _ => True) log := by
  refine (observe_obeys h).bind fun log result hseen => ?_
  cases result with
  | ok seen => exact apply_obeys hseen.1 alive (hseen.2 seen rfl)
  | error _ => trivial

theorem drive_obeys (h : Looking name job log) (alive : job.status.phase.terminal = false) :
    (r.drive job now).Obeys (r.Rule name now) (fun _ _ => True) log := by
  unfold drive
  split
  · next hlate => exact apply_obeys h alive (.late hlate)
  · split
    · refine (sweep_obeys h).bind fun log result hlook => ?_
      cases result with
      | ok _ => exact proceed_obeys hlook alive
      | error _ => trivial
    · exact proceed_obeys h alive

/-- **Discipline**: whatever the store answers, an invocation makes every call on the
grounds that the rule demands. -/
theorem reconcile_obeys (r : Reconciler) (name : String) (now : Instant) :
    (r.reconcile name now).Obeys (r.Rule name now) (fun _ _ => True) [] := by
  refine StoreScript.obeys_call ⟨rfl, rfl⟩ fun reply => ?_
  cases reply with
  | error _ => trivial
  | ok job =>
    have hlook : Looking name job ([] ++ [⟨.getJob name, .ok job⟩]) :=
      ⟨rfl, fun x hx => by obtain rfl := List.mem_singleton.mp hx; exact nofun⟩
    dsimp only
    split
    · next hterm => exact finalize_obeys hlook hterm
    · next hterm => exact drive_obeys hlook (by simpa using hterm)

end Reconciler

end JobOperator
