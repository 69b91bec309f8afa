import JobOperator.Proofs.Lifecycle.Discipline

/-!
# The order of the calls

The discipline says on what grounds an invocation makes a call. This is about what may come
before it, and about how an invocation ends.

* `Reconciler.Surveying`: at first an invocation reads and tidies up. All that it has asked was
  granted, or refused for a reason that it tolerates (`StoreCall.tolerates`).
* `Reconciler.Poised`: it is about to write the status. At most one call lies between the survey
  and the status, and that is the creation of a worker.
* `Reconciler.Orderly`: where each call has its place. After the status there is at most one more
  call (`Reconciler.Drops`), and a job is deleted only when all its workers are.
* `Reconciler.Closes`: how an invocation ends, and what it answers then.
* `Reconciler.reconcile_orderly`: an invocation keeps to this order, whatever the store answers.
-/

namespace JobOperator

/-- The errors that an invocation takes for an answer: that the record is not there, and that a
worker is there already. -/
def StoreCall.tolerates : StoreCall → StoreError → Bool
  | .getJob _, e | .getWorker _, e | .updateStatus _, e | .deleteJob _, e | .deleteWorker _, e =>
    e.isNotFound
  | .createWorker _, e => e.isNotFound || e.isAlreadyExists
  | _, _ => false

namespace Reconciler

variable {r : Reconciler} {name : String} {now : Instant} {log : StoreTranscript} {job : Job}

/-- The call was granted, or refused for a reason that is tolerated. -/
def Passes (x : Script.Exchange StoreCall StoreCall.Answer) : Prop :=
  ∀ e, x.reply = .error e → x.question.tolerates e

/-- Nothing has gone wrong. -/
def Clear (log : StoreTranscript) : Prop := ∀ x ∈ log, Passes x

/-- The call has created a worker. -/
def Creates (x : Script.Exchange StoreCall StoreCall.Answer) : Prop :=
  x.question.operation = .createWorker ∧ ∃ worker, x.reply = .ok worker

/-- The reply tells that another writer of the status came first. -/
def Conflicts (x : Script.Exchange StoreCall StoreCall.Answer) : Prop :=
  x.question.operation = .updateStatus ∧ ∃ e, x.reply = .error e ∧ e.isConflict

/-- The job has been read, nothing has gone wrong since, and apart from the removal of workers
nothing has been changed. -/
structure Surveying (name : String) (job : Job) (log : StoreTranscript) : Prop where
  read : HasRead name log job
  clear : Clear log
  idle : ∀ x ∈ log, x.question.operation ≠ .createWorker ∧ x.question.operation ≠ .updateStatus ∧
    x.question.operation ≠ .deleteJob

/-- The status may be written now. The option names the worker that has been created for it. -/
inductive Poised (name : String) (job : Job) : Option String → StoreTranscript → Prop where
  | looked {log : StoreTranscript} (survey : Surveying name job log) : Poised name job none log
  | created {before log : StoreTranscript} {launch : Worker.Launch} {worker : Worker}
      (survey : Surveying name job before)
      (last : log = before ++ [⟨.createWorker launch, .ok worker⟩]) :
      Poised name job (some worker.name) log
  | adopted {before log : StoreTranscript} {launch : Worker.Launch} {e : StoreError}
      (survey : Surveying name job before)
      (last : log = before ++ [⟨.createWorker launch, .error e⟩]) (there : e.isAlreadyExists) :
      Poised name job none log

/-- The points at which a worker is deleted. -/
inductive Drops (name : String) (job : Job) (log : StoreTranscript) : String → Prop where
  /-- workers are tidied up before anything is written, but not while one is running -/
  | tidied {worker : String} (survey : Surveying name job log)
      (phase : job.status.phase ≠ .running) : Drops name job log worker
  /-- the write has failed for which the worker was created -/
  | rolledBack {before : StoreTranscript} {worker : String} {written : Job} {e : StoreError}
      (poised : Poised name job (some worker) before)
      (last : log = before ++ [⟨.updateStatus written, .error e⟩]) (conflict : e.isConflict) :
      Drops name job log worker
  /-- the status has been written -/
  | retired {before : StoreTranscript} {worker : String} {written stored : Job}
      (poised : Poised name job none before)
      (last : log = before ++ [⟨.updateStatus written, .ok stored⟩]) : Drops name job log worker

/-- All workers of the job have been listed and deleted, and nothing else was done. -/
def Emptied (name : String) (job : Job) (log : StoreTranscript) : Prop :=
  ∃ (workers : List Worker) (deletions : StoreTranscript),
    log = ⟨.getJob name, .ok job⟩ :: ⟨.listWorkers (some job.name), .ok workers⟩ :: deletions ∧
      deletions.map (·.question) = workers.map (fun worker => .deleteWorker worker.name)

/-- What has gone before a call. -/
def Orderly (name : String) (log : StoreTranscript) : StoreCall → Prop
  | .getJob _ => log = []
  | .listWorkers _ | .getWorker _ | .createWorker _ => ∃ job, Surveying name job log
  | .updateStatus _ => ∃ job created, Poised name job created log
  | .deleteWorker worker => ∃ job, Drops name job log worker
  | .deleteJob _ => ∃ job, Surveying name job log ∧ Emptied name job log
  | .createJob _ | .listJobs | .updateWorkerPhase _ _ => False

/-- How an invocation ends. -/
inductive Closes (name : String) (log : StoreTranscript) :
    Except ReconcileError Requeue → Prop where
  /-- nothing has gone wrong, and there is no worker for which the status is still to be written -/
  | settled {requeue : Requeue} (clear : Clear log)
      (kept : ∀ x ∈ log.getLast?, ¬ Creates x) :
      Closes name log (.ok requeue)
  /-- the last call was refused, and that is the answer -/
  | failed {before : StoreTranscript} {call : StoreCall} {e : StoreError} (clear : Clear before)
      (last : log = before ++ [⟨call, .error e⟩]) (refused : ¬ call.tolerates e)
      (unbeaten : ¬ Conflicts ⟨call, .error e⟩) : Closes name log (.error (.store e))
  /-- the status could not be written, and no worker had been created for it -/
  | beaten {before : StoreTranscript} {job written : Job} {e : StoreError}
      (poised : Poised name job none before)
      (last : log = before ++ [⟨.updateStatus written, .error e⟩]) (conflict : e.isConflict) :
      Closes name log (.error (.conflict written.name))
  /-- the status could not be written, and the worker was deleted that had been created for it -/
  | rolledBack {before : StoreTranscript} {job written : Job} {worker : String} {e : StoreError}
      {reply : Except StoreError Unit} (poised : Poised name job (some worker) before)
      (last : log = before ++ [⟨.updateStatus written, .error e⟩] ++
        [⟨.deleteWorker worker, reply⟩])
      (conflict : e.isConflict) : Closes name log (.error (.conflict written.name))

/-! ## Facts about transcripts -/

/-- Being beaten to the status is not tolerated. -/
theorem Passes.not_conflicts {x : Script.Exchange StoreCall StoreCall.Answer} (h : Passes x) :
    ¬ Conflicts x := by
  obtain ⟨question, reply⟩ := x
  rintro ⟨hop, e, hreply, he⟩
  have hpass : question.tolerates e := h e hreply
  cases question with
  | updateStatus written =>
    cases e with
    | conflict => cases hpass
    | _ => cases he
  | _ => cases hop

theorem passes_ok {call : StoreCall} {value : call.Value} : Passes ⟨call, .ok value⟩ := nofun

theorem passes_error {call : StoreCall} {e : StoreError} :
    Passes ⟨call, .error e⟩ ↔ call.tolerates e := by
  constructor
  · intro h
    exact h e rfl
  · rintro h e' he'
    obtain rfl := Except.error.inj he'
    exact h

theorem not_creates_error {call : StoreCall} {e : StoreError} : ¬ Creates ⟨call, .error e⟩ :=
  fun h => nomatch h.2.choose_spec

theorem Clear.append {more : StoreTranscript} (h : Clear log) (h' : Clear more) :
    Clear (log ++ more) := by
  intro x hx
  rcases List.mem_append.mp hx with hx | hx
  · exact h x hx
  · exact h' x hx

theorem clear_singleton {x : Script.Exchange StoreCall StoreCall.Answer} :
    Clear [x] ↔ Passes x := by
  constructor
  · intro h
    exact h x (List.mem_singleton.mpr rfl)
  · intro h y hy
    obtain rfl := List.mem_singleton.mp hy
    exact h

theorem Surveying.append {x : Script.Exchange StoreCall StoreCall.Answer}
    (h : Surveying name job log) (hx : Passes x)
    (hidle : x.question.operation ≠ .createWorker ∧ x.question.operation ≠ .updateStatus ∧
      x.question.operation ≠ .deleteJob) : Surveying name job (log ++ [x]) := by
  refine ⟨h.read.append _, h.clear.append (clear_singleton.mpr hx), fun y hy => ?_⟩
  rcases List.mem_append.mp hy with hy | hy
  · exact h.idle y hy
  · obtain rfl := List.mem_singleton.mp hy
    exact hidle

theorem Surveying.first : Surveying name job [⟨.getJob name, .ok job⟩] := by
  refine ⟨rfl, clear_singleton.mpr passes_ok, fun x hx => ?_⟩
  obtain rfl := List.mem_singleton.mp hx
  exact ⟨nofun, nofun, nofun⟩

/-- Once a call has passed, an invocation may end, unless it has created a worker. -/
theorem Clear.closes {x : Script.Exchange StoreCall StoreCall.Answer} {requeue : Requeue}
    (h : Clear log) (hx : Passes x)
    (hcreated : ¬ Creates x) : Closes name (log ++ [x]) (.ok requeue) := by
  refine .settled (h.append (clear_singleton.mpr hx)) fun y hy => ?_
  rw [List.getLast?_concat] at hy
  exact Option.some.inj hy ▸ hcreated

/-- A refusal during the survey is the answer. -/
theorem Surveying.closes {call : StoreCall} {e : StoreError} (h : Surveying name job log)
    (hcall : call.operation ≠ .updateStatus) (he : ¬ call.tolerates e) :
    Closes name (log ++ [⟨call, .error e⟩]) (.error (.store e)) :=
  .failed h.clear rfl he fun hconflict => hcall hconflict.1

/-- An invocation is poised only while nothing has gone wrong. -/
theorem Poised.clear {created : Option String} (h : Poised name job created log) : Clear log := by
  cases h with
  | looked survey => exact survey.clear
  | created survey last =>
    rw [last]
    exact survey.clear.append (clear_singleton.mpr passes_ok)
  | adopted survey last there =>
    rw [last]
    refine survey.clear.append (clear_singleton.mpr (passes_error.mpr ?_))
    simp [StoreCall.tolerates, there]

/-- If no worker was created for the status, it need not be written. -/
theorem Poised.settled {requeue : Requeue} (h : Poised name job none log) :
    Closes name log (.ok requeue) := by
  cases h with
  | looked survey =>
    exact .settled survey.clear fun x hx hcreates =>
      (survey.idle x (List.mem_of_getLast? hx)).1 hcreates.1
  | adopted survey last there =>
    rw [last]
    refine survey.clear.closes (passes_error.mpr ?_) not_creates_error
    simp [StoreCall.tolerates, there]

/-! ## The scripts of an invocation -/

/-- What is known once a worker has been deleted: if the deletion was refused, that is the
answer. -/
theorem removeWorker_orderly {worker : String} (hrule : Orderly name log (.deleteWorker worker)) :
    (removeWorker worker).Obeys (Orderly name) (fun log' result => ∃ reply,
      log' = log ++ [⟨.deleteWorker worker, reply⟩] ∧
        match result with
        | .ok _ => Passes ⟨.deleteWorker worker, reply⟩
        | .error e => ∃ e', e = .store e' ∧ reply = .error e' ∧ ¬ e'.isNotFound) log := by
  refine StoreScript.obeys_call hrule fun reply => ?_
  cases reply with
  | ok _ => exact ⟨_, rfl, passes_ok⟩
  | error e =>
    dsimp only
    by_cases hgone : e.isNotFound
    · rw [if_pos hgone]
      exact ⟨_, rfl, passes_error.mpr hgone⟩
    · rw [if_neg hgone]
      exact ⟨_, rfl, e, rfl, rfl, hgone⟩

/-- What is known after a stretch of the survey that may have been given up. -/
def Surveyed {α : Type} (name : String) (job : Job) (log : StoreTranscript) :
    Except ReconcileError α → Prop
  | .ok _ => Surveying name job log
  | .error e => Closes name log (.error e)

theorem removeWorkers_orderly {names : List String} (h : Surveying name job log)
    (hphase : job.status.phase ≠ .running) :
    (removeWorkers names).Obeys (Orderly name) (fun log' result => Surveyed name job log' result ∧
      (result.isOk → ∃ deletions, log' = log ++ deletions ∧
        deletions.map (·.question) = names.map .deleteWorker)) log := by
  induction names generalizing log with
  | nil => exact ⟨h, fun _ => ⟨[], (List.append_nil log).symm, rfl⟩⟩
  | cons n names ih =>
    refine (removeWorker_orderly ⟨job, .tidied h hphase⟩).bind fun log' result => ?_
    rintro ⟨reply, rfl, hresult⟩
    cases result with
    | error e =>
      obtain ⟨e, rfl, rfl, hgone⟩ := hresult
      exact ⟨h.closes nofun hgone, nofun⟩
    | ok _ =>
      refine (ih (h.append hresult ⟨nofun, nofun, nofun⟩)).imp fun log' result => ?_
      rintro ⟨hlast, hrest⟩
      refine ⟨hlast, fun hok => ?_⟩
      obtain ⟨deletions, rfl, hnames⟩ := hrest hok
      refine ⟨⟨.deleteWorker n, reply⟩ :: deletions, by simp, ?_⟩
      rw [List.map_cons, hnames, List.map_cons]

theorem sweep_orderly (h : Surveying name job log) (hphase : job.status.phase ≠ .running) :
    (sweep job).Obeys (Orderly name) (fun log' result => Surveyed name job log' result) log := by
  refine StoreScript.obeys_call ⟨job, h⟩ fun reply => ?_
  cases reply with
  | error e => exact h.closes nofun nofun
  | ok workers =>
    have hlisted := h.append (x := ⟨.listWorkers (some job.name), .ok workers⟩) passes_ok
      ⟨nofun, nofun, nofun⟩
    exact (removeWorkers_orderly hlisted hphase).imp fun _ _ hlast => hlast.1

theorem observe_orderly (h : Surveying name job log) :
    (observe job).Obeys (Orderly name) (fun log' result => Surveyed name job log' result) log := by
  rw [observe]
  split
  · exact h
  · next worker _ =>
    refine StoreScript.obeys_call ⟨job, h⟩ fun reply => ?_
    cases reply with
    | ok _ => exact h.append passes_ok ⟨nofun, nofun, nofun⟩
    | error e =>
      dsimp only
      by_cases hgone : e.isNotFound
      · rw [if_pos hgone]
        exact h.append (passes_error.mpr hgone) ⟨nofun, nofun, nofun⟩
      · rw [if_neg hgone]
        exact h.closes nofun hgone

/-- What is known once the worker has been asked for. -/
def Staffed (name : String) (job : Job) (log : StoreTranscript) :
    Except ReconcileError Creation → Prop
  | .ok (.created worker) => Poised name job (some worker) log
  | .ok .adopted => Poised name job none log
  | .ok .ownerGone => ∀ requeue, Closes name log (.ok requeue)
  | .error e => Closes name log (.error e)

theorem createOrAdopt_orderly (h : Surveying name job log) :
    (r.createOrAdopt job).Obeys (Orderly name) (Staffed name job) log := by
  refine StoreScript.obeys_call ⟨job, h⟩ fun reply => ?_
  cases reply with
  | ok worker => exact .created h rfl
  | error e =>
    dsimp only
    by_cases hthere : e.isAlreadyExists
    · rw [if_pos hthere]
      exact .adopted h rfl hthere
    · rw [if_neg hthere]
      by_cases hgone : e.isNotFound
      · rw [if_pos hgone]
        intro requeue
        exact h.clear.closes (passes_error.mpr (by simp [StoreCall.tolerates, hgone]))
          not_creates_error
      · rw [if_neg hgone]
        exact h.closes nofun (by simp [StoreCall.tolerates, hthere, hgone])

/-- After the status has been written, the worker of the attempt before may be deleted. -/
theorem finish_orderly {step : Step} {written stored : Job} {created : Option String}
    (h : Poised name job created log)
    (hdelete : ∀ worker, step.effect = .delete worker → created = none) :
    (finish step).Obeys (Orderly name) (Closes name)
      (log ++ [⟨.updateStatus written, .ok stored⟩]) := by
  have hclear : Clear (log ++ [⟨.updateStatus written, .ok stored⟩]) :=
    h.clear.append (clear_singleton.mpr passes_ok)
  rw [finish]
  split
  · next worker heffect =>
    obtain rfl := hdelete worker heffect
    refine (removeWorker_orderly ⟨job, .retired h rfl⟩).bind fun log' result => ?_
    rintro ⟨reply, rfl, hresult⟩
    cases result with
    | ok _ => exact hclear.closes hresult fun hcreates => nomatch hcreates.1
    | error e =>
      obtain ⟨e, rfl, rfl, hgone⟩ := hresult
      exact .failed hclear rfl hgone fun hconflict => nomatch hconflict.1
  · exact h.clear.closes passes_ok fun hcreates => nomatch hcreates.1

/-- A step that deletes a worker changes the status, so that the status is written first. -/
theorem write_orderly {step : Step} {created : Option String} (h : Poised name job created log)
    (hdelete : ∀ worker, step.effect = .delete worker →
      created = none ∧ step.status ≠ job.status) :
    (write job step created).Obeys (Orderly name) (Closes name) log := by
  rw [write]
  split
  · generalize hwritten : ({ job with status := step.status } : Job) = written
    have hname : job.name = written.name := by rw [← hwritten]
    refine StoreScript.obeys_call ⟨job, created, h⟩ fun reply => ?_
    cases reply with
    | ok stored => exact finish_orderly h fun worker heffect => (hdelete worker heffect).1
    | error e =>
      dsimp only
      by_cases hgone : e.isNotFound
      · -- the job is gone, and its workers with it
        rw [if_pos hgone]
        exact h.clear.closes (passes_error.mpr hgone) not_creates_error
      · rw [if_neg hgone]
        by_cases hconflict : e.isConflict
        · rw [if_pos hconflict, hname]
          cases created with
          | none => exact .beaten h rfl hconflict
          | some worker =>
            refine (removeWorker_orderly ⟨job, .rolledBack h rfl hconflict⟩).bind
              fun log' result ⟨reply, hlog, _⟩ => ?_
            exact .rolledBack h hlog hconflict
        · rw [if_neg hconflict]
          exact .failed h.clear rfl hgone fun ⟨_, e', he', hconflict'⟩ =>
            hconflict (Except.error.inj he' ▸ hconflict')
  · next hsame =>
    obtain ⟨hnone, hstatus⟩ : created = none ∧ step.status = job.status := by
      simpa using hsame
    subst hnone
    rw [finish]
    split
    · next worker heffect => exact absurd hstatus (hdelete worker heffect).2
    · exact h.settled

theorem apply_orderly {seen : Observation} (h : Surveying name job log) :
    (r.apply job (job.step seen now r.pacing)).Obeys (Orderly name) (Closes name) log := by
  have hdelete : ∀ worker, (job.step seen now r.pacing).effect = .delete worker →
      (job.step seen now r.pacing).status ≠ job.status := by
    intro worker heffect
    have ht := job.step_transition seen now r.pacing
    rw [heffect] at ht
    exact ht.ne_of_delete
  rw [apply]
  split
  · next heffect =>
    refine createOrAdopt_orderly h |>.bind fun log' result hresult => ?_
    have hkeep : ∀ worker, (job.step seen now r.pacing).effect ≠ .delete worker := by
      intro worker hworker
      cases heffect.symm.trans hworker
    match result, hresult with
    | .ok (.created worker), hpoised =>
      exact write_orderly hpoised fun worker hworker => absurd hworker (hkeep worker)
    | .ok .adopted, hpoised =>
      exact write_orderly hpoised fun worker hworker => absurd hworker (hkeep worker)
    | .ok .ownerGone, hcloses => exact hcloses _
    | .error _, hcloses => exact hcloses
  · exact write_orderly (.looked h) fun worker hworker => ⟨rfl, hdelete worker hworker⟩

theorem proceed_orderly (h : Surveying name job log) :
    (r.proceed job now).Obeys (Orderly name) (Closes name) log := by
  refine (observe_orderly h).bind fun log' result hresult => ?_
  cases result with
  | ok seen => exact apply_orderly hresult
  | error _ => exact hresult

theorem drive_orderly (h : Surveying name job log) :
    (r.drive job now).Obeys (Orderly name) (Closes name) log := by
  rw [drive]
  split
  · exact apply_orderly h
  · split
    · next hpending =>
      refine (sweep_orderly h (by rw [hpending]; exact nofun)).bind fun log' result hresult => ?_
      cases result with
      | ok _ => exact proceed_orderly hresult
      | error _ => exact hresult
    · exact proceed_orderly h

theorem collect_orderly {retention : Retention} (h : Surveying name job log)
    (hempty : Emptied name job log) :
    (collect job retention now).Obeys (Orderly name) (Closes name) log := by
  unfold collect
  split
  · refine StoreScript.obeys_call ⟨job, h, hempty⟩ fun reply => ?_
    cases reply with
    | ok _ => exact h.clear.closes passes_ok fun hcreates => nomatch hcreates.1
    | error e =>
      dsimp only
      by_cases hgone : e.isNotFound
      · rw [if_pos hgone]
        exact h.clear.closes (passes_error.mpr hgone) not_creates_error
      · rw [if_neg hgone]
        exact h.closes nofun hgone
  · exact (Poised.looked h).settled

theorem finalize_orderly (hterminal : job.status.phase.terminal) :
    (finalize job now).Obeys (Orderly name) (Closes name) [⟨.getJob name, .ok job⟩] := by
  have hread : Surveying name job [⟨.getJob name, .ok job⟩] := .first
  refine StoreScript.obeys_call ⟨job, hread⟩ fun reply => ?_
  cases reply with
  | error _ => exact hread.closes nofun nofun
  | ok workers =>
    have hlisted := hread.append (x := ⟨.listWorkers (some job.name), .ok workers⟩) passes_ok
      ⟨nofun, nofun, nofun⟩
    have hphase : job.status.phase ≠ .running := by
      intro hrunning
      rw [hrunning] at hterminal
      cases hterminal
    refine (removeWorkers_orderly hlisted hphase).bind fun log' result ⟨hresult, hdeleted⟩ => ?_
    cases result with
    | error _ => exact hresult
    | ok _ =>
      obtain ⟨deletions, rfl, hnames⟩ := hdeleted rfl
      refine collect_orderly hresult ⟨workers, deletions, rfl, ?_⟩
      rw [hnames, List.map_map]
      rfl

/-- **Order**: whatever the store answers, an invocation makes each call in its place, and its
answer is what has become of the calls. -/
theorem reconcile_orderly (r : Reconciler) (name : String) (now : Instant) :
    (r.reconcile name now).Obeys (Orderly name) (Closes name) [] := by
  have hstart : Clear [] := List.forall_mem_nil _
  have hfirst : Orderly name [] (.getJob name) := rfl
  refine StoreScript.obeys_call hfirst fun reply => ?_
  cases reply with
  | error e =>
    dsimp only
    by_cases hgone : e.isNotFound
    · rw [if_pos hgone]
      exact hstart.closes (passes_error.mpr hgone) not_creates_error
    · rw [if_neg hgone]
      exact .failed hstart rfl hgone fun hconflict => nomatch hconflict.1
  | ok job =>
    dsimp only
    split
    · next hterminal => exact finalize_orderly hterminal
    · exact drive_orderly .first

end Reconciler

end JobOperator
