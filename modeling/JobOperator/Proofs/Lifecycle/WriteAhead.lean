import JobOperator.Proofs.Lifecycle.Order

/-!
# Writing ahead

The order of the calls is what makes an invocation safe to be cut short. This is what it
comes to, for each single call, wherever the invocation has got to.

* `Reconciler.WritesAhead`: what is true of the calls that were made, and of what is still to
  come. A worker that was created is recorded at once; a failed worker is deleted once the retry
  is recorded, and a job once its workers are deleted; who has been beaten to the status backs
  out (`Reconciler.BacksOut`); any other error that is not tolerated ends the invocation.
* `Reconciler.reconcile_writesAhead`: an invocation writes ahead, at each of its points, whatever
  the store answers.

Everything follows from the rules for single calls, `Reconciler.reconcile_obeys` and
`Reconciler.reconcile_orderly`: the one says why a call is made, the other what has gone before.
-/

namespace JobOperator.Reconciler

variable {r : Reconciler} {name : String} {now : Instant} {log before : StoreTranscript} {job : Job}

/-- How an invocation goes on that was beaten to the status: a worker that it created for it is
deleted, and the answer is a conflict, whatever the deletion was answered. -/
inductive BacksOut (before : StoreTranscript) (written : Job) :
    StoreTranscript → StoreScript (Except ReconcileError Requeue) → Prop where
  /-- no worker was created -/
  | nothing (uncreated : ∀ x ∈ before, ¬ Creates x) :
      BacksOut before written [] (.done (.error (.conflict written.name)))
  /-- the worker is about to be deleted -/
  | begun {launch : Worker.Launch} {worker : Worker}
      {resume : Except StoreError Unit → StoreScript (Except ReconcileError Requeue)}
      (created : before.getLast? = some ⟨.createWorker launch, .ok worker⟩)
      (ends : ∀ reply, resume reply = .done (.error (.conflict written.name))) :
      BacksOut before written [] (.ask (.deleteWorker worker.name) resume)
  /-- the deletion of the worker was answered -/
  | ended {launch : Worker.Launch} {worker : Worker} {reply : Except StoreError Unit}
      (created : before.getLast? = some ⟨.createWorker launch, .ok worker⟩) :
      BacksOut before written [⟨.deleteWorker worker.name, reply⟩]
        (.done (.error (.conflict written.name)))

/-- A job is deleted when it has finished and expired, and all its workers have been listed and
are gone. -/
def Vacated (name : String) (now : Instant) (log : StoreTranscript) (job : Job) : Prop :=
  job.status.phase.terminal ∧ job.retention now = .expired ∧ Emptied name job log ∧ Clear log

/-- What is true of an invocation that has made the calls of a log, and goes on as a script. -/
structure WritesAhead (name : String) (now : Instant) (log : StoreTranscript)
    (rest : StoreScript (Except ReconcileError Requeue)) : Prop where
  creates_once : log.countP (fun x => x.question.operation = .createWorker) ≤ 1
  writes_once : log.countP (fun x => x.question.operation = .updateStatus) ≤ 1
  /-- the status is written against the record that was read -/
  writes_read : ∀ written reply, ⟨.updateStatus written, reply⟩ ∈ log →
    ∃ job, HasRead name log job ∧ written = { job with status := written.status }
  /-- the call after the creation of a worker writes the status -/
  records_created : ∀ before after launch worker,
    log = before ++ ⟨.createWorker launch, .ok worker⟩ :: after →
    (∃ written reply more, after = ⟨.updateStatus written, reply⟩ :: more) ∨
      after = [] ∧ ∃ written resume, rest = .ask (.updateStatus written) resume
  /-- only a job that runs records a retry -/
  retries_running : ∀ job written reply, HasRead name log job →
    ⟨.updateStatus written, reply⟩ ∈ log →
    written.status.retries.toNat = job.status.retries.toNat + 1 → job.status.phase = .running
  /-- whatever worker is deleted for a job that runs, the retry was recorded just before -/
  records_retry : ∀ job before after worker reply, HasRead name log job →
    job.status.phase = .running → log = before ++ ⟨.deleteWorker worker, reply⟩ :: after →
    after = [] ∧ worker = job.status.workerRef.getD (Worker.nameOf job) ∧
      ∃ start written stored, before = start ++ [⟨.updateStatus written, .ok stored⟩] ∧
        written.status.retries.toNat = job.status.retries.toNat + 1
  backs_out : ∀ before after written e,
    log = before ++ ⟨.updateStatus written, .error e⟩ :: after → e.isConflict →
    BacksOut before written after rest
  deletes_job_last : ∀ before after asked reply,
    log = before ++ ⟨.deleteJob asked, reply⟩ :: after →
    after = [] ∧ (∃ result, rest = .done result) ∧ ∃ job, asked = job.name ∧
      Vacated name now before job
  /-- an error that is not tolerated is the answer -/
  gives_up : ∀ before after call e, log = before ++ ⟨call, .error e⟩ :: after →
    ¬ call.tolerates e → (∀ x ∈ before ++ [⟨call, .error e⟩], ¬ Conflicts x) →
    after = [] ∧ rest = .done (.error (.store e))

/-! ## What follows a call -/

theorem Surveying.not_mem_concat {x : Script.Exchange StoreCall StoreCall.Answer}
    (h : Surveying name job (log ++ [x])) : x.question.operation ≠ .createWorker ∧
      x.question.operation ≠ .updateStatus ∧ x.question.operation ≠ .deleteJob :=
  h.idle x (List.mem_append_right _ (List.mem_singleton.mpr rfl))

/-- Before the status is written, no status was written, and the job was not deleted. -/
theorem Poised.idle {created : Option String} (h : Poised name job created log) : ∀ x ∈ log,
    x.question.operation ≠ .updateStatus ∧ x.question.operation ≠ .deleteJob := by
  intro x hx
  cases h with
  | looked survey => exact (survey.idle x hx).2
  | created survey last | adopted survey last =>
    rw [last] at hx
    rcases List.mem_append.mp hx with hx | hx
    · exact (survey.idle x hx).2
    · obtain rfl := List.mem_singleton.mp hx
      exact ⟨nofun, nofun⟩

/-- The worker that was created for the status was created by the last call. -/
theorem Poised.getLast?_eq {worker : String} (h : Poised name job (some worker) log) :
    ∃ launch w, w.name = worker ∧ log.getLast? = some ⟨.createWorker launch, .ok w⟩ := by
  generalize hcreated : some worker = created at h
  cases h with
  | looked | adopted => cases hcreated
  | created survey last =>
    obtain rfl := Option.some.inj hcreated
    exact ⟨_, _, rfl, by rw [last, List.getLast?_concat]⟩

/-- If no worker was created for the status, none was created. -/
theorem Poised.uncreated (h : Poised name job none log) : ∀ x ∈ log, ¬ Creates x := by
  intro x hx hcreates
  cases h with
  | looked survey => exact (survey.idle x hx).1 hcreates.1
  | adopted survey last there =>
    rw [last] at hx
    rcases List.mem_append.mp hx with hx | hx
    · exact (survey.idle x hx).1 hcreates.1
    · obtain rfl := List.mem_singleton.mp hx
      exact not_creates_error hcreates

/-- What was done before a worker is deleted: tidying up, or a status was written by the last
call. -/
theorem Drops.cases {worker : String} (h : Drops name job log worker) :
    Surveying name job log ∨ ∃ before created written reply, Poised name job created before ∧
      log = before ++ [⟨.updateStatus written, reply⟩] := by
  cases h with
  | tidied survey _ => exact .inl survey
  | rolledBack poised last _ => exact .inr ⟨_, _, _, _, poised, last⟩
  | retired poised last => exact .inr ⟨_, _, _, _, poised, last⟩

/-- A worker is created at most once. -/
theorem Orderly.uncreated {call : StoreCall} (h : Orderly name log call)
    (hcall : call.operation = .createWorker) : ∀ x ∈ log, x.question.operation ≠ .createWorker := by
  cases call with
  | createWorker _ =>
    obtain ⟨job, survey⟩ := h
    intro x hx
    exact (survey.idle x hx).1
  | _ => cases hcall

/-- A status is written at most once. -/
theorem Orderly.unwritten {call : StoreCall} (h : Orderly name log call)
    (hcall : call.operation = .updateStatus) : ∀ x ∈ log, x.question.operation ≠ .updateStatus := by
  cases call with
  | updateStatus _ =>
    obtain ⟨job, created, poised⟩ := h
    intro x hx
    exact (poised.idle x hx).1
  | _ => cases hcall

/-- An invocation that goes on has not written a status yet, or it has done so by the last call
and goes on to delete a worker. -/
theorem Orderly.cases {call : StoreCall} (h : Orderly name log call) :
    (∀ x ∈ log, x.question.operation ≠ .updateStatus ∧ x.question.operation ≠ .deleteJob) ∨
      ∃ job worker before created written reply, call = .deleteWorker worker ∧
        Drops name job log worker ∧ Poised name job created before ∧
        log = before ++ [⟨.updateStatus written, reply⟩] := by
  cases call with
  | getJob _ =>
    obtain rfl : log = [] := h
    exact .inl (List.forall_mem_nil _)
  | listWorkers _ | getWorker _ | createWorker _ =>
    obtain ⟨job, survey⟩ := h
    exact .inl fun x hx => (survey.idle x hx).2
  | deleteJob _ =>
    obtain ⟨job, survey, _⟩ := h
    exact .inl fun x hx => (survey.idle x hx).2
  | updateStatus _ =>
    obtain ⟨job, created, poised⟩ := h
    exact .inl poised.idle
  | deleteWorker worker =>
    obtain ⟨job, hdrops⟩ := h
    rcases hdrops.cases with survey | ⟨before, created, written, reply, poised, last⟩
    · exact .inl fun x hx => (survey.idle x hx).2
    · exact .inr ⟨job, worker, before, created, written, reply, rfl, hdrops, poised, last⟩
  | createJob _ | listJobs | updateWorkerPhase _ _ => exact h.elim

/-- An invocation goes on only while nothing has gone wrong, unless it was beaten to the status. -/
theorem Orderly.clear {call : StoreCall} (h : Orderly name log call)
    (hunbeaten : ∀ x ∈ log, ¬ Conflicts x) : Clear log := by
  cases call with
  | getJob _ =>
    obtain rfl : log = [] := h
    exact List.forall_mem_nil _
  | listWorkers _ | getWorker _ | createWorker _ =>
    obtain ⟨job, survey⟩ := h
    exact survey.clear
  | deleteJob _ =>
    obtain ⟨job, survey, _⟩ := h
    exact survey.clear
  | updateStatus _ =>
    obtain ⟨job, created, poised⟩ := h
    exact poised.clear
  | deleteWorker worker =>
    obtain ⟨job, hdrops⟩ := h
    cases hdrops with
    | tidied survey _ => exact survey.clear
    | retired poised last =>
      rw [last]
      exact poised.clear.append (clear_singleton.mpr passes_ok)
    | @rolledBack before _ written e poised last conflict =>
      have hlast : ⟨.updateStatus written, .error e⟩ ∈ log :=
        last ▸ List.mem_append_right _ (List.mem_singleton.mpr rfl)
      exact absurd ⟨rfl, e, rfl, conflict⟩ (hunbeaten _ hlast)
  | createJob _ | listJobs | updateWorkerPhase _ _ => exact h.elim

/-- Nothing is asked once a worker was deleted after the status was written. -/
theorem not_orderly_dropped {written : Job} {worker : String} {reply : Except StoreError Job}
    {reply' : Except StoreError Unit} {call : StoreCall} :
    ¬ Orderly name
      (before ++ [⟨.updateStatus written, reply⟩] ++ [⟨.deleteWorker worker, reply'⟩]) call := by
  intro h
  rcases h.cases with hidle | ⟨_, _, _, _, _, _, _, _, _, last⟩
  · exact (hidle _ (List.mem_append_left _ (List.mem_append_right _
      (List.mem_singleton.mpr rfl)))).1 rfl
  · cases (List.append_singleton_inj.mp last).2

/-- Nothing is asked once a job was deleted. -/
theorem not_orderly_deleteJob {asked : String} {reply : Except StoreError Unit}
    {call : StoreCall} : ¬ Orderly name (before ++ [⟨.deleteJob asked, reply⟩]) call := by
  intro h
  rcases h.cases with hidle | ⟨_, _, _, _, _, _, _, _, _, last⟩
  · exact (hidle _ (List.mem_append_right _ (List.mem_singleton.mpr rfl))).2 rfl
  · cases (List.append_singleton_inj.mp last).2

/-- Only the status is asked for once a worker was created. -/
theorem Orderly.of_created {launch : Worker.Launch} {worker : Worker} {call : StoreCall}
    (h : Orderly name (before ++ [⟨.createWorker launch, .ok worker⟩]) call) :
    ∃ written, call = .updateStatus written := by
  cases call with
  | updateStatus written => exact ⟨written, rfl⟩
  | getJob _ => cases (List.append_ne_nil_of_right_ne_nil before (List.cons_ne_nil _ _)) h
  | listWorkers _ | getWorker _ | createWorker _ =>
    obtain ⟨job, survey⟩ := h
    exact absurd rfl survey.not_mem_concat.1
  | deleteJob _ =>
    obtain ⟨job, survey, _⟩ := h
    exact absurd rfl survey.not_mem_concat.1
  | deleteWorker _ =>
    obtain ⟨job, hdrops⟩ := h
    rcases hdrops.cases with survey | ⟨_, _, _, _, _, last⟩
    · exact absurd rfl survey.not_mem_concat.1
    · cases (List.append_singleton_inj.mp last).2
  | createJob _ | listJobs | updateWorkerPhase _ _ => exact h.elim

/-- Only a worker that was created for the status is deleted once the status is found to be
written by another. -/
theorem Orderly.of_conflict {written : Job} {e : StoreError} {call : StoreCall}
    (h : Orderly name (before ++ [⟨.updateStatus written, .error e⟩]) call) :
    ∃ launch worker, call = .deleteWorker worker.name ∧
      before.getLast? = some ⟨.createWorker launch, .ok worker⟩ := by
  rcases h.cases with hidle | ⟨_, worker, _, _, _, _, rfl, hdrops, _, _⟩
  · exact absurd rfl (hidle _ (List.mem_append_right _ (List.mem_singleton.mpr rfl))).1
  · cases hdrops with
    | tidied survey _ => exact absurd rfl survey.not_mem_concat.2.1
    | rolledBack poised last _ =>
      obtain ⟨rfl, _⟩ := List.append_singleton_inj.mp last
      obtain ⟨launch, w, rfl, hlast⟩ := poised.getLast?_eq
      exact ⟨launch, w, rfl, hlast⟩
    | retired poised last => cases (List.append_singleton_inj.mp last).2

/-! ## How an invocation ends -/

/-- An invocation does not end before a worker that it created is recorded. -/
theorem not_closes_created {launch : Worker.Launch} {worker : Worker}
    {result : Except ReconcileError Requeue} :
    ¬ Closes name (before ++ [⟨.createWorker launch, .ok worker⟩]) result := by
  intro h
  cases h with
  | settled _ kept => exact kept _ (List.getLast?_concat ..) ⟨rfl, worker, rfl⟩
  | failed _ last | beaten _ last | rolledBack _ last =>
    cases (List.append_singleton_inj.mp last).2

/-- An error that is not tolerated is the answer. -/
theorem Closes.of_refused {call : StoreCall} {e : StoreError}
    {result : Except ReconcileError Requeue}
    (h : Closes name (before ++ [⟨call, .error e⟩]) result) (refused : ¬ call.tolerates e)
    (unbeaten : ∀ x ∈ before ++ [⟨call, .error e⟩], ¬ Conflicts x) :
    result = .error (.store e) := by
  have hmem : ⟨call, .error e⟩ ∈ before ++ [⟨call, .error e⟩] :=
    List.mem_append_right _ (List.mem_singleton.mpr rfl)
  cases h with
  | settled clear _ => exact absurd (passes_error.mp (clear _ hmem)) refused
  | failed _ last =>
    cases (List.append_singleton_inj.mp last).2
    rfl
  | beaten _ last conflict =>
    cases (List.append_singleton_inj.mp last).2
    exact absurd ⟨rfl, e, rfl, conflict⟩ (unbeaten _ hmem)
  | @rolledBack start _ written _ e' _ _ last conflict =>
    have hstatus : ⟨.updateStatus written, .error e'⟩ ∈ before ++ [⟨call, .error e⟩] :=
      last ▸ List.mem_append_left _ (List.mem_append_right _ (List.mem_singleton.mpr rfl))
    exact absurd ⟨rfl, e', rfl, conflict⟩ (unbeaten _ hstatus)

/-- Who was beaten to the status, and had created no worker for it, says so. -/
theorem Closes.of_beaten {written : Job} {e : StoreError}
    {result : Except ReconcileError Requeue}
    (h : Closes name (before ++ [⟨.updateStatus written, .error e⟩]) result)
    (conflict : e.isConflict) :
    result = .error (.conflict written.name) ∧ ∀ x ∈ before, ¬ Creates x := by
  have hconflicts : Conflicts ⟨.updateStatus written, .error e⟩ := ⟨rfl, e, rfl, conflict⟩
  cases h with
  | settled clear _ =>
    have hpasses := clear _ (List.mem_append_right _ (List.mem_singleton.mpr rfl))
    exact absurd hconflicts hpasses.not_conflicts
  | failed _ last _ unbeaten =>
    cases (List.append_singleton_inj.mp last).2
    exact absurd hconflicts unbeaten
  | beaten poised last _ =>
    obtain ⟨rfl, hsame⟩ := List.append_singleton_inj.mp last
    cases hsame
    exact ⟨rfl, poised.uncreated⟩
  | rolledBack _ last => cases (List.append_singleton_inj.mp last).2

/-- Who was beaten to the status, and has deleted the worker created for it, says so. -/
theorem eq_of_rolledBack {written : Job} {e : StoreError} {worker : String}
    {reply : Except StoreError Unit} {s : StoreScript (Except ReconcileError Requeue)}
    (h : s.Obeys (Orderly name) (Closes name)
      (before ++ [⟨.updateStatus written, .error e⟩] ++ [⟨.deleteWorker worker, reply⟩]))
    (conflict : e.isConflict) : s = .done (.error (.conflict written.name)) := by
  have hconflicts : Conflicts ⟨.updateStatus written, .error e⟩ := ⟨rfl, e, rfl, conflict⟩
  have hmem : ⟨.updateStatus written, .error e⟩ ∈
      before ++ [⟨StoreCall.updateStatus written, .error e⟩] :=
    List.mem_append_right _ (List.mem_singleton.mpr rfl)
  cases s with
  | ask call resume => exact absurd h.1 not_orderly_dropped
  | done result =>
    cases h with
    | settled clear _ =>
      exact absurd hconflicts (clear _ (List.mem_append_left _ hmem)).not_conflicts
    | failed clear last _ _ =>
      obtain ⟨rfl, _⟩ := List.append_singleton_inj.mp last
      exact absurd hconflicts (clear _ hmem).not_conflicts
    | beaten _ last => cases (List.append_singleton_inj.mp last).2
    | rolledBack _ last =>
      obtain ⟨hsame, _⟩ := List.append_singleton_inj.mp last
      cases (List.append_singleton_inj.mp hsame).2
      rfl

/-! ## The discipline, wherever an invocation has got to -/

section Points

variable {rest : StoreScript (Except ReconcileError Requeue)} {after : StoreTranscript}
  (h : (r.reconcile name now).Leads log rest)
include h

/-- The grounds for a call that was made. -/
theorem rule_of_made {x : Script.Exchange StoreCall StoreCall.Answer}
    (hx : log = before ++ x :: after) : r.Rule name now before x.question :=
  h.rule_of_mem (reconcile_obeys r name now) hx

/-- What had gone before a call that was made. -/
theorem orderly_of_made {x : Script.Exchange StoreCall StoreCall.Answer}
    (hx : log = before ++ x :: after) : Orderly name before x.question :=
  h.rule_of_mem (reconcile_orderly r name now) hx

/-- A status that was written is a step of the job that was read. -/
theorem step_of_written {written : Job} {reply : Except StoreError Job}
    (hmem : ⟨.updateStatus written, reply⟩ ∈ log) :
    ∃ job seen, HasRead name log job ∧
      written = { job with status := (job.step seen now r.pacing).status } := by
  obtain ⟨before, after, hx⟩ := List.append_of_mem hmem
  obtain ⟨job, seen, hread, _, _, _, hwritten, _⟩ := rule_of_made h hx
  refine ⟨job, seen, ?_, hwritten⟩
  rw [hx]
  exact hread.append _

/-- Only a job that runs records a retry. A job that starts counts no failed attempt yet. -/
theorem running_of_retry {written : Job} {reply : Except StoreError Job}
    (hread : HasRead name log job) (hmem : ⟨.updateStatus written, reply⟩ ∈ log)
    (hretry : written.status.retries.toNat = job.status.retries.toNat + 1) :
    job.status.phase = .running := by
  obtain ⟨job', seen, hread', hwritten⟩ := step_of_written h hmem
  obtain rfl := hread.unique hread'
  have ht := job.step_transition seen now r.pacing
  have hstatus : written.status = (job.step seen now r.pacing).status := by rw [hwritten]
  rw [← hstatus] at ht
  generalize written.status = s at hretry ht
  generalize (job.step seen now r.pacing).effect = effect at ht
  cases ht with
  | retried phase _ _ => exact phase
  | started => simp at hretry
  | _ => exact absurd hretry (Nat.ne_of_lt (Nat.lt_succ_self _))

/-- A worker of a job that runs is deleted by the call after the one that records the retry. -/
theorem recorded_of_deleted {worker : String} {reply : Except StoreError Unit}
    (hread : HasRead name log job) (hphase : job.status.phase = .running)
    (hx : log = before ++ ⟨.deleteWorker worker, reply⟩ :: after) :
    after = [] ∧ worker = job.status.workerRef.getD (Worker.nameOf job) ∧
      ∃ start written stored, before = start ++ [⟨.updateStatus written, .ok stored⟩] ∧
        written.status.retries.toNat = job.status.retries.toNat + 1 := by
  have hsame : ∀ {job'}, HasRead name before job' → job' = job := by
    intro job' hread'
    refine HasRead.unique ?_ hread
    rw [hx]
    exact hread'.append _
  obtain ⟨dropped, hdrops⟩ := orderly_of_made h hx
  obtain ⟨removed, hremoved, hreason⟩ := rule_of_made h hx
  obtain rfl := hsame hremoved
  cases hdrops with
  | tidied survey phase =>
    obtain rfl := hsame survey.read
    exact absurd hphase phase
  | @rolledBack start _ written e poised last _ =>
    -- a worker is created only for a job that waits for one
    obtain ⟨launch, w, rfl, hcreated⟩ := poised.getLast?_eq
    obtain ⟨first, rfl⟩ := List.getLast?_eq_some_iff.mp hcreated
    have hx' : log = first ++ ⟨.createWorker launch, .ok w⟩ ::
        (⟨.updateStatus written, .error e⟩ :: ⟨.deleteWorker w.name, reply⟩ :: after) := by
      simp [hx, last]
    obtain ⟨created, hcreator, _, hpending, _⟩ := rule_of_made h hx'
    obtain rfl : created = removed := by
      refine hsame ?_
      rw [last, List.append_assoc]
      exact hcreator.append _
    cases hphase.symm.trans hpending
  | @retired start _ written stored poised last =>
    have hmute : ∀ call, ¬ Orderly name (before ++ [⟨.deleteWorker worker, reply⟩]) call := by
      intro call
      rw [last]
      exact not_orderly_dropped
    obtain ⟨rfl, _⟩ := h.last (reconcile_orderly r name now) hx hmute
    have hwritten : ⟨.updateStatus written, .ok stored⟩ ∈ before :=
      last ▸ List.mem_append_right _ (List.mem_singleton.mpr rfl)
    cases hreason with
    | superseded unwritten | residual unwritten => exact absurd hwritten unwritten.not_mem
    | rolledBack last' _ =>
      have hsplit := last.symm.trans (last'.trans (List.append_cons ..))
      cases (List.append_singleton_inj.mp hsplit).2
    | @retried first seen stored' _ _ last' effect =>
      obtain ⟨_, hlast⟩ := List.append_singleton_inj.mp (last.symm.trans last')
      cases hlast
      have ht := removed.step_transition seen now r.pacing
      rw [effect] at ht
      obtain ⟨_, hleft, hworker, hstatus⟩ := ht.of_delete
      refine ⟨rfl, hworker, start, _, stored, last, ?_⟩
      dsimp only
      rw [hstatus]
      exact Job.toNat_succ_of_lt hleft

/-- Who was beaten to the status backs out. -/
theorem backsOut_of_conflict {written : Job} {e : StoreError}
    (hx : log = before ++ ⟨.updateStatus written, .error e⟩ :: after) (conflict : e.isConflict) :
    BacksOut before written after rest := by
  obtain ⟨y, more, rfl, hy⟩ | ⟨rfl, hrest⟩ := h.next (reconcile_orderly r name now) hx
  · -- the deletion was made, so nothing can follow it
    obtain ⟨call, reply⟩ := y
    obtain ⟨launch, worker, rfl, hlast⟩ := hy.of_conflict
    rw [List.append_cons] at hx
    obtain ⟨rfl, result, rfl, hcloses⟩ :=
      h.last (reconcile_orderly r name now) hx fun _ => not_orderly_dropped
    have hdone := eq_of_rolledBack (s := .done result) hcloses conflict
    rw [hdone]
    exact .ended hlast
  · cases rest with
    | done result =>
      obtain ⟨rfl, huncreated⟩ := Closes.of_beaten hrest conflict
      exact .nothing huncreated
    | ask call resume =>
      obtain ⟨hcall, hresume⟩ := hrest
      obtain ⟨launch, worker, rfl, hlast⟩ := hcall.of_conflict
      exact .begun hlast fun reply => eq_of_rolledBack (hresume reply) conflict

/-- **Write-ahead discipline**: at each of its points, and whatever the store has answered, an
invocation writes ahead. -/
theorem reconcile_writesAhead : WritesAhead name now log rest where
  creates_once := by
    refine h.countP_le_one (reconcile_orderly r name now)
      (fun call => decide (call.operation = .createWorker)) fun log call hcall hkind x hx => ?_
    simpa using hcall.uncreated (of_decide_eq_true hkind) x hx
  writes_once := by
    refine h.countP_le_one (reconcile_orderly r name now)
      (fun call => decide (call.operation = .updateStatus)) fun log call hcall hkind x hx => ?_
    simpa using hcall.unwritten (of_decide_eq_true hkind) x hx
  writes_read written reply hmem := by
    obtain ⟨job, seen, hread, hwritten⟩ := step_of_written h hmem
    exact ⟨job, hread, by rw [hwritten]⟩
  records_created before after launch worker hx := by
    obtain ⟨⟨call, reply⟩, more, rfl, hy⟩ | ⟨rfl, hrest⟩ :=
      h.next (reconcile_orderly r name now) hx
    · obtain ⟨written, rfl⟩ := hy.of_created
      exact .inl ⟨written, reply, more, rfl⟩
    · cases rest with
      | done result => exact absurd hrest not_closes_created
      | ask call resume =>
        obtain ⟨written, rfl⟩ := hrest.1.of_created
        exact .inr ⟨rfl, written, resume, rfl⟩
  retries_running job written reply hread hmem hretry := running_of_retry h hread hmem hretry
  records_retry job before after worker reply hread hphase hx :=
    recorded_of_deleted h hread hphase hx
  backs_out before after written e hx conflict := backsOut_of_conflict h hx conflict
  deletes_job_last before after asked reply hx := by
    obtain ⟨job, hread, rfl, hterminal, hexpired⟩ := rule_of_made h hx
    obtain ⟨job', survey, hempty⟩ := orderly_of_made h hx
    obtain rfl := hread.unique survey.read
    obtain ⟨rfl, result, hrest, _⟩ :=
      h.last (reconcile_orderly r name now) hx fun _ => not_orderly_deleteJob
    exact ⟨rfl, ⟨result, hrest⟩, job, rfl, hterminal, hexpired, hempty, survey.clear⟩
  gives_up before after call e hx refused unbeaten := by
    obtain ⟨rfl, result, rfl, hcloses⟩ := h.last (reconcile_orderly r name now) hx
      fun call' hcall' => refused (passes_error.mp (hcall'.clear unbeaten _
        (List.mem_append_right _ (List.mem_singleton.mpr rfl))))
    rw [hcloses.of_refused refused unbeaten]
    exact ⟨rfl, rfl⟩

end Points

/-- A job that waits for its first worker. -/
def waiting : Job where
  name := "bell"
  uid := .ofNat 1
  resourceVersion := 2
  createdAt := .ofSecond 0
  spec := { workerImage := "quantum/worker:1", circuits := "" }
  status := { phase := .pending, startTime := some (.ofSecond 1) }

/-- The job with the name of its worker. -/
def staffed : Job :=
  { waiting with status := { waiting.status with workerRef := some "bell-worker-0" } }

/-- The worker that it is launched with. -/
def launched : Worker.Launch := ({} : Worker.Template).launch waiting

theorem writesAhead_beaten : ∃ before after rest,
    (reconcile {} "bell" (.ofSecond 2)).Leads
      (before ++ ⟨.updateStatus staffed, .error (.conflict "bell" 2)⟩ :: after) rest ∧
    BacksOut before staffed after rest ∧ after ≠ [] := by
  have hlead : (reconcile {} "bell" (.ofSecond 2)).Leads
      ([⟨.getJob "bell", .ok waiting⟩, ⟨.listWorkers (some "bell"), .ok []⟩,
        ⟨.createWorker launched, .ok (launched.toWorker (.ofSecond 2))⟩] ++
        [⟨.updateStatus staffed, .error (.conflict "bell" 2)⟩,
          ⟨.deleteWorker "bell-worker-0", .error (.transient "down")⟩])
      (.done (.error (.conflict "bell"))) := by
    have h₁ := (Script.Leads.start (s := reconcile {} "bell" (.ofSecond 2))).answer
      (q := .getJob "bell") rfl (.ok waiting)
    have h₂ := h₁.answer (q := .listWorkers (some "bell")) rfl (.ok [])
    have h₃ := h₂.answer (q := .createWorker launched) rfl (.ok (launched.toWorker (.ofSecond 2)))
    have h₄ := h₃.answer (q := .updateStatus staffed) rfl (.error (.conflict "bell" 2))
    exact h₄.answer (q := .deleteWorker "bell-worker-0") rfl (.error (.transient "down"))
  exact ⟨_, _, _, hlead, (reconcile_writesAhead hlead).backs_out _ _ _ _ rfl rfl,
    List.cons_ne_nil _ _⟩

end JobOperator.Reconciler
