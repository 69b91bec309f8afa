import JobOperator.Proofs.Lifecycle.Discipline

/-!
# What an invocation owes

The discipline says on what grounds an invocation makes a call. This is about what it has to
have done by then, and by its end.

* `Reconciler.Upkeep`: workers are listed **before anything is deleted**, and the status of a job
  that waits, and is in time, is written only after the workers of earlier attempts are gone
  (`Reconciler.Swept`).
* `Reconciler.Discharged`: a worker that was created is named by a status that was written, or was
  deleted again, or the write has failed for another reason than that another writer came
  first.
* `Reconciler.reconcile_upkeep`: an invocation does all this, whatever the store answers.
-/

namespace JobOperator.Reconciler

variable {r : Reconciler} {name : String} {now : Instant} {log : StoreTranscript} {job : Job}

/-- The invocation was told that a worker is not there any more. -/
def Removed (log : StoreTranscript) (worker : String) : Prop :=
  ∃ reply, ⟨.deleteWorker worker, reply⟩ ∈ log ∧ ∀ e, reply = .error e → e.isNotFound

/-- The workers of the job have been listed, and those of earlier attempts are gone. -/
def Swept (log : StoreTranscript) (job : Job) : Prop :=
  ∃ workers, ⟨.listWorkers (some job.name), .ok workers⟩ ∈ log ∧
    ∀ worker ∈ workers, superseded job worker → Removed log worker.name

/-- If there is anything to sweep, it has been swept. -/
def Ready (now : Instant) (log : StoreTranscript) (job : Job) : Prop :=
  job.status.phase = .pending → job.pastDeadline now = false → Swept log job

/-- What an invocation has done before it makes a call. -/
def Upkeep (name : String) (now : Instant) (log : StoreTranscript) : StoreCall → Prop
  | .listWorkers _ => ∃ job, log = [⟨.getJob name, .ok job⟩]
  | .updateStatus _ => ∃ job, HasRead name log job ∧ Ready now log job
  | _ => True

/-- No worker has been created. -/
def Uncreated (log : StoreTranscript) : Prop :=
  ∀ launch worker, ⟨.createWorker launch, .ok worker⟩ ∉ log

/-- What has become of a worker that was created. -/
def Discharged (log : StoreTranscript) : Prop :=
  ∀ launch worker, ⟨.createWorker launch, .ok worker⟩ ∈ log →
    (∃ written stored, ⟨.updateStatus written, .ok stored⟩ ∈ log) ∨
    (∃ written e, ⟨.updateStatus written, .error e⟩ ∈ log ∧ ¬ e.isConflict) ∨
    ∃ reply, ⟨.deleteWorker worker.name, reply⟩ ∈ log

/-! ## Facts about transcripts -/

theorem Removed.mono {log' : StoreTranscript} {worker : String} (h : Removed log worker)
    (hsub : log ⊆ log') : Removed log' worker := by
  obtain ⟨reply, hmem, hgone⟩ := h
  exact ⟨reply, hsub hmem, hgone⟩

theorem Swept.mono {log' : StoreTranscript} (h : Swept log job) (hsub : log ⊆ log') :
    Swept log' job := by
  obtain ⟨workers, hlisted, hgone⟩ := h
  exact ⟨workers, hsub hlisted, fun worker hmem hold => (hgone worker hmem hold).mono hsub⟩

theorem Ready.mono {log' : StoreTranscript} (h : Ready now log job) (hsub : log ⊆ log') :
    Ready now log' job :=
  fun hphase hlate => (h hphase hlate).mono hsub

theorem Uncreated.append {x : Script.Exchange StoreCall StoreCall.Answer} (h : Uncreated log)
    (hx : x.question.operation ≠ .createWorker) : Uncreated (log ++ [x]) := by
  intro launch worker hmem
  rcases List.mem_append.mp hmem with hmem | hmem
  · exact h launch worker hmem
  · obtain rfl := List.mem_singleton.mp hmem
    exact hx rfl

theorem Uncreated.discharged (h : Uncreated log) : Discharged log :=
  fun launch worker hmem => absurd hmem (h launch worker)

/-- Further calls leave nothing undone, unless they create a worker. -/
theorem Discharged.append {x : Script.Exchange StoreCall StoreCall.Answer} (h : Discharged log)
    (hx : x.question.operation ≠ .createWorker) : Discharged (log ++ [x]) := by
  intro launch worker hmem
  rcases List.mem_append.mp hmem with hmem | hmem
  · rcases h launch worker hmem with ⟨written, stored, hw⟩ | ⟨written, e, hw, he⟩ | ⟨reply, hd⟩
    · exact .inl ⟨written, stored, List.mem_append_left _ hw⟩
    · exact .inr (.inl ⟨written, e, List.mem_append_left _ hw, he⟩)
    · exact .inr (.inr ⟨reply, List.mem_append_left _ hd⟩)
  · obtain rfl := List.mem_singleton.mp hmem
    exact absurd rfl hx

/-! ## The scripts of an invocation -/

/-- Until it asks for a worker, an invocation has a job that it has read, and no worker to answer
for. -/
def Unburdened (name : String) (job : Job) (log : StoreTranscript) : Prop :=
  HasRead name log job ∧ Uncreated log

theorem Unburdened.append {x : Script.Exchange StoreCall StoreCall.Answer}
    (h : Unburdened name job log) (hx : x.question.operation ≠ .createWorker) :
    Unburdened name job (log ++ [x]) :=
  ⟨h.1.append _, h.2.append hx⟩

/-- The job has been read, and that is all. -/
theorem unburdened_first : Unburdened name job [⟨.getJob name, .ok job⟩] :=
  ⟨rfl, fun launch worker hmem => by cases List.mem_singleton.mp hmem⟩

/-- Who may delete a worker, and succeeds, was told that it is not there any more. -/
theorem removeWorker_removed {rule : StoreTranscript → StoreCall → Prop} {worker : String}
    (hrule : rule log (.deleteWorker worker)) :
    (removeWorker worker).Obeys rule (fun log' result =>
      (∃ reply, log' = log ++ [⟨.deleteWorker worker, reply⟩]) ∧
        ∀ u, result = .ok u → Removed log' worker) log := by
  refine StoreScript.obeys_call hrule fun reply => ?_
  have hlast : ⟨.deleteWorker worker, reply⟩ ∈ log ++ [⟨.deleteWorker worker, reply⟩] :=
    List.mem_append_right _ (List.mem_singleton.mpr rfl)
  cases reply with
  | ok _ => exact ⟨⟨_, rfl⟩, fun _ _ => ⟨_, hlast, nofun⟩⟩
  | error e =>
    refine ⟨⟨_, rfl⟩, fun u hu => ⟨_, hlast, fun e' he' => ?_⟩⟩
    obtain rfl := Except.error.inj he'
    by_cases hgone : e.isNotFound
    · exact hgone
    · rw [if_neg hgone] at hu
      cases hu

/-- What has been deleted stays deleted in the transcript while the next ones are. -/
theorem removeWorkers_upkeep {names : List String} (h : Unburdened name job log) :
    (removeWorkers names).Obeys (Upkeep name now) (fun log' result => Unburdened name job log' ∧
      log ⊆ log' ∧ ∀ u, result = .ok u → ∀ n ∈ names, Removed log' n) log := by
  induction names generalizing log with
  | nil => exact ⟨h, List.Subset.refl _, fun _ _ n hn => absurd hn List.not_mem_nil⟩
  | cons n names ih =>
    refine (removeWorker_removed trivial).bind fun log' result => ?_
    rintro ⟨⟨reply, rfl⟩, hgone⟩
    have hfirst : Unburdened name job (log ++ [⟨.deleteWorker n, reply⟩]) := h.append nofun
    have hsub := List.subset_append_left log [⟨StoreCall.deleteWorker n, reply⟩]
    cases result with
    | error _ => exact ⟨hfirst, hsub, nofun⟩
    | ok u =>
      refine (ih hfirst).imp fun log' result ⟨hlast, hsub', hrest⟩ =>
        ⟨hlast, List.Subset.trans hsub hsub', fun u' hu' n' hn' => ?_⟩
      rcases List.mem_cons.mp hn' with rfl | hn'
      · exact (hgone u rfl).mono hsub'
      · exact hrest u' hu' n' hn'

theorem sweep_upkeep :
    (sweep job).Obeys (Upkeep name now) (fun log' result => Unburdened name job log' ∧
      ∀ u, result = .ok u → Swept log' job) [⟨.getJob name, .ok job⟩] := by
  have hread : Unburdened name job [⟨.getJob name, .ok job⟩] := unburdened_first
  refine StoreScript.obeys_call ⟨job, rfl⟩ fun reply => ?_
  cases reply with
  | error _ => exact ⟨hread.append nofun, nofun⟩
  | ok workers =>
    have hlisted : ⟨.listWorkers (some job.name), .ok workers⟩ ∈
        ([⟨.getJob name, .ok job⟩] ++ [⟨.listWorkers (some job.name), .ok workers⟩] :
          StoreTranscript) := List.mem_append_right _ (List.mem_singleton.mpr rfl)
    have hstart : Unburdened name job ([⟨.getJob name, .ok job⟩] ++
        [⟨.listWorkers (some job.name), .ok workers⟩]) := hread.append nofun
    refine (removeWorkers_upkeep hstart).imp fun log' result h =>
      ⟨h.1, fun u hu => ⟨workers, h.2.1 hlisted, fun worker hmem hold => ?_⟩⟩
    exact h.2.2 u hu worker.name
      (List.mem_map.mpr ⟨worker, List.mem_filter.mpr ⟨hmem, hold⟩, rfl⟩)

theorem observe_upkeep (h : Unburdened name job log) (hready : Ready now log job) :
    (observe job).Obeys (Upkeep name now)
      (fun log' _ => Unburdened name job log' ∧ Ready now log' job) log := by
  unfold observe
  split
  · exact ⟨h, hready⟩
  · next worker href =>
    refine StoreScript.obeys_call trivial fun reply => ?_
    have hlast : Unburdened name job (log ++ [⟨.getWorker worker, reply⟩]) ∧
        Ready now (log ++ [⟨.getWorker worker, reply⟩]) job :=
      ⟨h.append nofun, hready.mono (List.subset_append_left ..)⟩
    cases reply with
    | ok _ => exact hlast
    | error _ => exact hlast

theorem finish_upkeep {step : Step} (h : Discharged log) :
    (finish step).Obeys (Upkeep name now) (fun log' _ => Discharged log') log := by
  unfold finish
  split
  · next worker heffect =>
    refine (removeWorker_removed trivial).bind fun log' result => ?_
    rintro ⟨⟨reply, rfl⟩, -⟩
    cases result with
    | ok _ => exact h.append nofun
    | error _ => exact h.append nofun
  · exact h

/-- `created` names the only worker that was created, if there is one. -/
theorem write_upkeep {step : Step} {created : Option String} (hread : HasRead name log job)
    (hready : Ready now log job)
    (hcreated : ∀ launch worker, ⟨.createWorker launch, .ok worker⟩ ∈ log →
      created = some worker.name) :
    (write job step created).Obeys (Upkeep name now) (fun log' _ => Discharged log') log := by
  unfold write
  split
  · refine StoreScript.obeys_call ⟨job, hread, hready⟩ fun reply => ?_
    have hlast : ⟨.updateStatus { job with status := step.status }, reply⟩ ∈
        log ++ [⟨.updateStatus { job with status := step.status }, reply⟩] :=
      List.mem_append_right _ (List.mem_singleton.mpr rfl)
    cases reply with
    | ok stored => exact finish_upkeep fun _ _ _ => .inl ⟨_, stored, hlast⟩
    | error e =>
      have hfailed : ¬ e.isConflict → Discharged (log ++
          [⟨.updateStatus { job with status := step.status }, .error e⟩]) :=
        fun he _ _ _ => .inr (.inl ⟨_, e, hlast, he⟩)
      dsimp only
      split
      · next hgone =>
        refine hfailed ?_
        cases e with
        | notFound => exact nofun
        | _ => cases hgone
      · split
        · -- another writer came first
          cases created with
          | none =>
            have hnone : Uncreated log :=
              fun launch worker hmem => nomatch hcreated launch worker hmem
            exact hnone.discharged.append nofun
          | some worker =>
            refine (removeWorker_removed trivial).bind fun log' result => ?_
            rintro ⟨⟨reply, rfl⟩, -⟩
            intro launch w hmem
            rcases List.mem_append.mp hmem with hmem | hmem
            · rcases List.mem_append.mp hmem with hmem | hmem
              · obtain rfl := Option.some.inj (hcreated launch w hmem)
                exact .inr (.inr ⟨reply, List.mem_append_right _ (List.mem_singleton.mpr rfl)⟩)
              · cases List.mem_singleton.mp hmem
            · cases List.mem_singleton.mp hmem
        · next hconflict => exact hfailed hconflict
  · next hsame =>
    have hnone : created = none := by
      cases created with
      | none => rfl
      | some worker => exact absurd rfl hsame
    refine finish_upkeep (Uncreated.discharged fun launch worker hmem => ?_)
    cases hnone.symm.trans (hcreated launch worker hmem)

/-- What is known once the worker has been asked for. -/
def Charged (name : String) (now : Instant) (job : Job) (log : StoreTranscript)
    (result : Except ReconcileError Creation) : Prop :=
  HasRead name log job ∧ Ready now log job ∧
    match result with
    | .ok (.created worker) => ∀ launch w, ⟨.createWorker launch, .ok w⟩ ∈ log → w.name = worker
    | _ => Uncreated log

theorem createOrAdopt_upkeep (h : Unburdened name job log) (hready : Ready now log job) :
    (r.createOrAdopt job).Obeys (Upkeep name now) (Charged name now job) log := by
  refine StoreScript.obeys_call trivial fun reply => ?_
  have hread := h.1.append [⟨.createWorker (r.template.launch job), reply⟩]
  have hready := hready.mono
    (List.subset_append_left log [⟨.createWorker (r.template.launch job), reply⟩])
  cases reply with
  | ok worker =>
    refine ⟨hread, hready, fun launch w hmem => ?_⟩
    rcases List.mem_append.mp hmem with hmem | hmem
    · exact absurd hmem (h.2 launch w)
    · cases List.mem_singleton.mp hmem
      rfl
  | error e =>
    have hnone : Uncreated (log ++ [⟨.createWorker (r.template.launch job), .error e⟩]) := by
      intro launch worker hmem
      rcases List.mem_append.mp hmem with hmem | hmem
      · exact h.2 launch worker hmem
      · cases List.mem_singleton.mp hmem
    dsimp only
    split
    · exact ⟨hread, hready, hnone⟩
    · split
      · exact ⟨hread, hready, hnone⟩
      · exact ⟨hread, hready, hnone⟩

theorem apply_upkeep {step : Step} (h : Unburdened name job log) (hready : Ready now log job) :
    (r.apply job step).Obeys (Upkeep name now) (fun log' _ => Discharged log') log := by
  unfold apply
  split
  · refine (createOrAdopt_upkeep h hready).bind fun log' result => ?_
    rintro ⟨hread, hready, hcreated⟩
    match result with
    | .ok (.created worker) =>
      exact write_upkeep hread hready fun launch w hmem => by rw [hcreated launch w hmem]
    | .ok .adopted =>
      exact write_upkeep hread hready fun launch w hmem => absurd hmem (hcreated launch w)
    | .ok .ownerGone | .error _ => exact hcreated.discharged
  · exact write_upkeep h.1 hready fun launch w hmem => absurd hmem (h.2 launch w)

theorem proceed_upkeep (h : Unburdened name job log) (hready : Ready now log job) :
    (r.proceed job now).Obeys (Upkeep name now) (fun log' _ => Discharged log') log := by
  refine (observe_upkeep h hready).bind fun log' result ⟨h', hready'⟩ => ?_
  cases result with
  | ok seen => exact apply_upkeep h' hready'
  | error _ => exact h'.2.discharged

theorem drive_upkeep : (r.drive job now).Obeys (Upkeep name now) (fun log' _ => Discharged log')
    [⟨.getJob name, .ok job⟩] := by
  have hread : Unburdened name job [⟨.getJob name, .ok job⟩] := unburdened_first
  unfold drive
  split
  · next hlate => exact apply_upkeep hread fun _ honTime => by simp [hlate] at honTime
  · split
    · refine sweep_upkeep.bind fun log' result ⟨h', hswept⟩ => ?_
      cases result with
      | ok u => exact proceed_upkeep h' fun _ _ => hswept u rfl
      | error _ => exact h'.2.discharged
    · next hphase => exact proceed_upkeep hread fun hpending => absurd hpending hphase

theorem finalize_upkeep : (finalize job now).Obeys (Upkeep name now) (fun log' _ => Discharged log')
    [⟨.getJob name, .ok job⟩] := by
  have hread : Unburdened name job [⟨.getJob name, .ok job⟩] := unburdened_first
  refine StoreScript.obeys_call ⟨job, rfl⟩ fun reply => ?_
  cases reply with
  | error _ => exact hread.2.discharged.append nofun
  | ok workers =>
    have hstart : Unburdened name job ([⟨.getJob name, .ok job⟩] ++
        [⟨.listWorkers (some job.name), .ok workers⟩]) := hread.append nofun
    refine (removeWorkers_upkeep hstart).bind fun log' result ⟨h', _, _⟩ => ?_
    cases result with
    | error _ => exact h'.2.discharged
    | ok _ =>
      dsimp only
      unfold collect
      split
      · refine StoreScript.obeys_call trivial fun reply => ?_
        cases reply with
        | ok _ => exact h'.2.discharged.append nofun
        | error _ => exact h'.2.discharged.append nofun
      · exact h'.2.discharged

/-- **Upkeep**: whatever the store answers, an invocation has done what it owes. -/
theorem reconcile_upkeep (r : Reconciler) (name : String) (now : Instant) :
    (r.reconcile name now).Obeys (Upkeep name now) (fun log _ => Discharged log) [] := by
  refine StoreScript.obeys_call trivial fun reply => ?_
  cases reply with
  | error _ =>
    refine Uncreated.discharged fun launch worker hmem => ?_
    cases List.mem_singleton.mp hmem
  | ok job =>
    dsimp only
    split
    · exact finalize_upkeep
    · exact drive_upkeep

end JobOperator.Reconciler
