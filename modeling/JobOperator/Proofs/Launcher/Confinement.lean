import JobOperator.Proofs.Launcher.Finished
import Mathlib.Tactic.MkIffOfInductiveProp

/-!
# Failures stay where they are

Whatever goes wrong in a cycle goes wrong for one worker, or for one container that is to be
removed, and the others have their turn.

* `Launcher.Calls`: what has to be told of a worker for a phase to be written down.
* `Launcher.TurnConfined`: what is asked for the sake of one worker is about this worker. A phase is
  written **exactly if it is called for** and is not the recorded one, and after an inspection that
  fails nothing more is asked.
* `Launcher.Confined`: every listed worker has its turn, in the order of the list; containers are
  removed that are listed and belong to no listed worker, **all of them**; and a cycle fails exactly
  if one of the two lists cannot be had.
* `Launcher.sync_confined`: so it is in every cycle, whatever it is answered.
-/

namespace JobOperator.Launcher

/-- What has been told calls for a phase of the worker. -/
@[mk_iff]
inductive Calls (worker : Worker) (told : SyncTranscript) : Worker.Phase → Prop where
  /-- its own container is reported, in a state that tells the phase (`ContainerState.tells_iff`) -/
  | state {o : Podman.Outcome} {state : ContainerState}
      (asked : command (Podman.inspectArguments worker.name) o ∈ told)
      (reported : Podman.inspected worker.name o = .ok (some state)) :
      Calls worker told state.workerPhase
  /-- its own launch has failed -/
  | launch {o : Podman.Outcome} {e : Podman.Error}
      (asked : command (Podman.runArguments worker) o ∈ told)
      (refused : Podman.started worker o = .error e) : Calls worker told .failed
  /-- it was running, and its own container is missing -/
  | missing {o : Podman.Outcome} (running : worker.phase = .running)
      (asked : command (Podman.inspectArguments worker.name) o ∈ told)
      (reported : Podman.inspected worker.name o = .ok none) : Calls worker told .failed

/-- A question about the worker. -/
inductive About (worker : Worker) : Ask → Prop where
  | inspects : About worker (.host (Podman.inspectArguments worker.name))
  | runs : About worker (.host (Podman.runArguments worker))
  | writes (phase : Worker.Phase) : About worker (.store (.updateWorkerPhase worker.name phase))
  | tells : About worker (.notify worker.owner.name)

/-- What is asked for the sake of one worker. -/
structure TurnConfined (worker : Worker) (turn : SyncTranscript) : Prop where
  /-- its container is inspected, before all else -/
  inspects : ∃ o later, turn = command (Podman.inspectArguments worker.name) o :: later
  /-- no other worker is concerned -/
  about : ∀ x ∈ turn, About worker x.question
  once : (phasesWritten worker.name turn).length ≤ 1
  written_iff : ∀ phase, phase ∈ phasesWritten worker.name turn ↔
    phase ≠ worker.phase ∧ Calls worker turn phase
  /-- an inspection that fails, or cannot be read, is the end of it -/
  unseen : ∀ o e, command (Podman.inspectArguments worker.name) o ∈ turn →
    Podman.inspected worker.name o = .error e →
    turn = [command (Podman.inspectArguments worker.name) o]

/-- The container that a question is about to remove. -/
def removal? : Ask → Option String
  | .host ["rm", "-f", name] => some name
  | _ => none

/-- The containers whose removal was asked for, oldest first. -/
def removals (log : SyncTranscript) : List String := log.filterMap fun x => removal? x.question

/-- What a cycle has asked, and how it has ended. -/
structure Confined (log : SyncTranscript) (result : Except SyncError Unit) : Prop where
  /-- every listed worker has its turn, in the order of the list, before the containers are
  listed -/
  turns : ∀ workers, Lists log workers → ∃ turns o rest, List.Forall₂ TurnConfined workers turns ∧
    log = ⟨.store (.listWorkers none), .ok workers⟩ ::
      (turns.flatten ++ command Podman.listArguments o :: rest)
  /-- one phase at most is written for every time that a worker is listed -/
  writes : ∀ workers, Lists log workers → ∀ name,
    (phasesWritten name log).length ≤ workers.countP (·.name = name)
  /-- the containers that are listed and belong to no listed worker are removed, each of them -/
  removed : ∀ workers o names, Lists log workers → command Podman.listArguments o ∈ log →
    Podman.listed o = .ok names →
    removals log = names.filter fun name => workers.all fun w => w.name ≠ name
  /-- and no others -/
  removed_only : ∀ name ∈ removals log, ∃ workers o names, Lists log workers ∧
    command Podman.listArguments o ∈ log ∧ Podman.listed o = .ok names ∧ name ∈ names ∧
    ∀ worker ∈ workers, worker.name ≠ name
  fails_iff : (∃ e, result = .error e) ↔
    (∃ e, ⟨.store (.listWorkers none), .error e⟩ ∈ log) ∨
      ∃ o e, command Podman.listArguments o ∈ log ∧ Podman.listed o = .error e

variable {worker : Worker} {workers : List Worker} {asked turn log : SyncTranscript} {name : String}
  {phase found : Worker.Phase} {o : Podman.Outcome}

/-! ## What is found, by what is told -/

theorem run_ne_inspect : Podman.runArguments worker ≠ Podman.inspectArguments name :=
  Podman.inspect_ne_run.symm

/-- What is found is what is called for. -/
theorem Found.calls_iff (h : Found worker asked found) :
    Calls worker asked phase ↔ phase = found := by
  cases h with
  | state told => simp [Launcher.calls_iff, told, run_ne_inspect]
  | lost told running => simp [Launcher.calls_iff, told, running, run_ne_inspect]
  | refused told pending launch =>
    simp [Launcher.calls_iff, told, pending, launch, run_ne_inspect]

/-- If nothing is found, nothing is called for. -/
theorem Unmoved.not_calls (h : Unmoved worker asked) : ¬ Calls worker asked phase := by
  cases h with
  | unseen told => simp [calls_iff, told, run_ne_inspect]
  | ended told finished =>
    have hrunning : worker.phase ≠ .running := by
      rintro hphase
      rw [hphase] at finished
      cases finished
    simp [calls_iff, told, hrunning, run_ne_inspect]
  | launched told pending launch => simp [calls_iff, told, pending, launch, run_ne_inspect]

/-- A worker is looked at by an inspection, and then by a launch at most. -/
inductive Looks (worker : Worker) : SyncTranscript → Prop where
  | inspection (o : Podman.Outcome) :
      Looks worker [command (Podman.inspectArguments worker.name) o]
  | launch (o o' : Podman.Outcome) : Looks worker
      [command (Podman.inspectArguments worker.name) o, command (Podman.runArguments worker) o']

theorem Found.looks (h : Found worker asked found) : Looks worker asked := by
  cases h with
  | state | lost => exact .inspection _
  | refused => exact .launch ..

theorem Unmoved.looks (h : Unmoved worker asked) : Looks worker asked := by
  cases h with
  | unseen | ended => exact .inspection _
  | launched => exact .launch ..

theorem Looks.inspects (h : Looks worker asked) :
    ∃ o later, asked = command (Podman.inspectArguments worker.name) o :: later := by
  cases h with
  | inspection | launch => exact ⟨_, _, rfl⟩

theorem Looks.about (h : Looks worker asked) : ∀ x ∈ asked, About worker x.question := by
  cases h with
  | inspection => exact List.forall_mem_singleton.mpr .inspects
  | launch => exact List.forall_mem_cons.mpr ⟨.inspects, List.forall_mem_singleton.mpr .runs⟩

/-- Nothing is written before something is found. -/
theorem Looks.phasesWritten_eq_nil (h : Looks worker asked) (name : String) :
    phasesWritten name asked = [] := by
  cases h with
  | inspection | launch => rfl

/-- An inspection that fails is the end of it. -/
theorem Found.not_unseen {e : Podman.Error} (h : Found worker asked found)
    (hmem : command (Podman.inspectArguments worker.name) o ∈ asked) :
    Podman.inspected worker.name o ≠ .error e := by
  cases h with
  | state told | lost told | refused told =>
    obtain rfl : o = _ := by simpa using hmem
    rw [told]
    exact nofun

theorem Unmoved.unseen_eq {e : Podman.Error} (h : Unmoved worker asked)
    (hmem : command (Podman.inspectArguments worker.name) o ∈ asked)
    (failed : Podman.inspected worker.name o = .error e) :
    asked = [command (Podman.inspectArguments worker.name) o] := by
  cases h with
  | unseen => rw [List.mem_singleton.mp hmem]
  | ended told | launched told =>
    obtain rfl : o = _ := by simpa using hmem
    exact nomatch told.symm.trans failed

/-! ## One turn -/

/-- What is written and told says nothing of a container. -/
theorem command_mem_written {arguments : Podman.Invocation} {reply : Except StoreError Worker} :
    command arguments o ∈ asked ++ ⟨.store (.updateWorkerPhase name phase), reply⟩ ::
      notices worker reply ↔ command arguments o ∈ asked := by
  cases reply <;> simp [notices, command]

theorem calls_written {reply : Except StoreError Worker} :
    Calls worker (asked ++ ⟨.store (.updateWorkerPhase name found), reply⟩ ::
      notices worker reply) phase ↔ Calls worker asked phase := by
  simp only [calls_iff, command_mem_written]

theorem Turn.confined (h : Turn worker turn) : TurnConfined worker turn := by
  cases h with
  | unmoved h =>
    have hnone := h.looks.phasesWritten_eq_nil worker.name
    refine ⟨h.looks.inspects, h.looks.about, ?_, fun phase => ?_, fun o e => h.unseen_eq⟩
    · rw [hnone]
      exact Nat.zero_le _
    · rw [hnone]
      exact iff_of_false List.not_mem_nil fun hcalls => h.not_calls hcalls.2
  | same found =>
    have hnone := found.looks.phasesWritten_eq_nil worker.name
    refine ⟨found.looks.inspects, found.looks.about, ?_, fun phase => ?_,
      fun o e hmem failed => absurd failed (found.not_unseen hmem)⟩
    · rw [hnone]
      exact Nat.zero_le _
    · rw [hnone, found.calls_iff]
      exact iff_of_false List.not_mem_nil fun hboth => hboth.1 hboth.2
  | @written asked phase found changed reply =>
    have hone : phasesWritten worker.name (asked ++
        ⟨.store (.updateWorkerPhase worker.name phase), reply⟩ :: notices worker reply) =
        [phase] := by
      rw [phasesWritten_append, found.looks.phasesWritten_eq_nil, List.nil_append,
        phasesWritten_cons_some phaseWritten_self]
      cases reply <;> rfl
    obtain ⟨o, later, rfl⟩ := found.looks.inspects
    refine ⟨⟨o, _, rfl⟩, fun x hx => ?_, ?_, fun phase' => ?_, fun o' e hmem failed => ?_⟩
    · rcases List.mem_append.mp hx with hx | hx
      · exact found.looks.about x hx
      · rcases List.mem_cons.mp hx with rfl | hx
        · exact .writes phase
        · cases reply with
          | ok => rw [List.mem_singleton.mp hx]; exact .tells
          | error => cases hx
    · rw [hone]
      exact Nat.le_refl 1
    · rw [hone, List.mem_singleton, calls_written, found.calls_iff]
      exact ⟨fun heq => ⟨heq ▸ changed, heq⟩, And.right⟩
    · exact absurd failed (found.not_unseen (command_mem_written.mp hmem))

/-! ## The whole cycle -/

theorem About.phaseWritten_of_ne {q : Ask} (h : About worker q) (hname : worker.name ≠ name) :
    phaseWritten name q = none := by
  cases h with
  | inspects | runs | tells => rfl
  | writes => exact Launcher.phaseWritten_of_ne hname

theorem About.removal?_eq_none {q : Ask} (h : About worker q) : removal? q = none := by
  cases h with
  | inspects | runs | tells | writes => rfl

theorem About.not_lists (h : About worker (.host Podman.listArguments)) : False := by
  generalize hq : Ask.host Podman.listArguments = q at h
  cases h with
  | inspects => exact Podman.inspect_ne_list (Ask.host.inj hq).symm
  | runs => simp [Podman.listArguments, Podman.runArguments] at hq
  | writes | tells => cases hq

/-- A worker's turn writes a phase of its own name, and one at most. -/
theorem TurnConfined.length_le (h : TurnConfined worker turn) (name : String) :
    (phasesWritten name turn).length ≤ if worker.name = name then 1 else 0 := by
  by_cases hname : worker.name = name
  · subst hname
    rw [if_pos rfl]
    exact h.once
  · have hnone : phasesWritten name turn = [] :=
      List.filterMap_eq_nil_iff.mpr fun x hx => (h.about x hx).phaseWritten_of_ne hname
    rw [hnone]
    exact Nat.zero_le _

section Turns

variable {turns : List SyncTranscript} (each : List.Forall₂ TurnConfined workers turns)
include each

theorem turns_length_le (name : String) :
    (phasesWritten name turns.flatten).length ≤ workers.countP (·.name = name) := by
  induction each with
  | nil => exact Nat.le_refl 0
  | @cons worker turn workers turns hturn _ ih =>
    have hlength := hturn.length_le name
    rw [List.flatten_cons, phasesWritten_append, List.length_append, List.countP_cons]
    simp only [decide_eq_true_eq]
    omega

/-- What is asked in the turns is about workers. -/
theorem about_of_mem_turns {x : Script.Exchange Ask Reply} (hx : x ∈ turns.flatten) :
    ∃ worker, About worker x.question := by
  induction each with
  | nil => cases hx
  | cons hturn _ ih =>
    rcases List.mem_append.mp hx with hx | hx
    · exact ⟨_, hturn.about x hx⟩
    · exact ih hx

theorem removals_turns : removals turns.flatten = [] :=
  List.filterMap_eq_nil_iff.mpr fun _ hx =>
    (about_of_mem_turns each hx).elim fun _ h => h.removal?_eq_none

theorem list_not_mem_turns : command Podman.listArguments o ∉ turns.flatten := fun hx =>
  (about_of_mem_turns each hx).elim fun _ h => h.not_lists

end Turns

/-- The transcript of a cycle that could list the workers. -/
def wholeLog (workers : List Worker) (turns : List SyncTranscript) (o : Podman.Outcome)
    (rest : SyncTranscript) : SyncTranscript :=
  ⟨.store (.listWorkers none), .ok workers⟩ ::
    (turns.flatten ++ command Podman.listArguments o :: rest)

section Whole

variable {turns : List SyncTranscript} {rest : SyncTranscript} {names : List String}

theorem eq_of_lists_wholeLog {listed : List Worker}
    (h : Lists (wholeLog workers turns o rest) listed) : listed = workers :=
  (Except.ok.inj (Script.Exchange.reply_inj (Option.some.inj h))).symm

variable (each : List.Forall₂ TurnConfined workers turns)
  (removes : rest.map (·.question) = names.map fun name => .host (Podman.removeArguments name))

include removes

theorem question_of_mem_rest {x : Script.Exchange Ask Reply} (hx : x ∈ rest) :
    ∃ name ∈ names, x.question = .host (Podman.removeArguments name) := by
  have hmem := List.mem_map_of_mem (f := (·.question)) hx
  rw [removes] at hmem
  obtain ⟨name, hname, heq⟩ := List.mem_map.mp hmem
  exact ⟨name, hname, heq.symm⟩

theorem phasesWritten_rest : phasesWritten name rest = [] := by
  refine List.filterMap_eq_nil_iff.mpr fun x hx => ?_
  obtain ⟨_, -, hquestion⟩ := question_of_mem_rest removes hx
  rw [hquestion]
  rfl

theorem removals_rest : removals rest = names := by
  have hmap : removals rest = (rest.map (·.question)).filterMap removal? := by
    rw [List.filterMap_map]
    rfl
  rw [hmap, removes, List.filterMap_map]
  exact List.filterMap_some

theorem phasesWritten_wholeLog :
    phasesWritten name (wholeLog workers turns o rest) = phasesWritten name turns.flatten := by
  rw [wholeLog, phasesWritten_cons_none rfl, phasesWritten_append, phasesWritten_cons_none rfl,
    phasesWritten_rest removes, List.append_nil]

include each

theorem removals_wholeLog : removals (wholeLog workers turns o rest) = names := by
  rw [wholeLog, removals, List.filterMap_cons_none rfl, List.filterMap_append,
    List.filterMap_cons_none rfl]
  exact (congrArg₂ (· ++ ·) (removals_turns each) (removals_rest removes)).trans (List.nil_append _)

/-- The containers are listed once. -/
theorem list_mem_wholeLog {o' : Podman.Outcome} :
    command Podman.listArguments o' ∈ wholeLog workers turns o rest ↔ o' = o := by
  refine ⟨fun hmem => ?_, ?_⟩
  · rcases List.mem_cons.mp hmem with hfirst | hmem
    · cases hfirst
    rcases List.mem_append.mp hmem with hturn | hmem
    · exact absurd hturn (list_not_mem_turns each)
    rcases List.mem_cons.mp hmem with hlist | hrest
    · exact (command_inj.mp hlist).2
    · obtain ⟨_, -, hquestion⟩ := question_of_mem_rest removes hrest
      simp [Podman.listArguments, Podman.removeArguments] at hquestion
  · rintro rfl
    exact List.mem_cons_of_mem _ (List.mem_append_right _ List.mem_cons_self)

/-- The workers could be listed. -/
theorem not_error_mem_wholeLog (e : StoreError) :
    ⟨.store (.listWorkers none), .error e⟩ ∉ wholeLog workers turns o rest := by
  intro hmem
  rcases List.mem_cons.mp hmem with hfirst | hmem
  · cases hfirst
  rcases List.mem_append.mp hmem with hturn | hmem
  · obtain ⟨worker, habout⟩ := about_of_mem_turns each hturn
    cases habout
  rcases List.mem_cons.mp hmem with hlist | hrest
  · cases hlist
  · obtain ⟨_, -, hquestion⟩ := question_of_mem_rest removes hrest
    cases hquestion

/-- A cycle that removes what it should, and whose end is told by the list of the containers. -/
theorem confined_wholeLog {result : Except SyncError Unit}
    (removed : ∀ all, Podman.listed o = .ok all →
      names = all.filter fun name => workers.all fun w => w.name ≠ name)
    (unlisted : ∀ e, Podman.listed o = .error e → names = [])
    (ends : (∃ e, result = .error e) ↔ ∃ e, Podman.listed o = .error e) :
    Confined (wholeLog workers turns o rest) result where
  turns := by
    intro listed h
    obtain rfl := eq_of_lists_wholeLog h
    exact ⟨turns, o, rest, each, rfl⟩
  writes := by
    intro listed h name
    obtain rfl := eq_of_lists_wholeLog h
    rw [phasesWritten_wholeLog removes]
    exact turns_length_le each name
  removed := by
    intro listed o' all h hlist htold
    obtain rfl := eq_of_lists_wholeLog h
    obtain rfl := (list_mem_wholeLog each removes).mp hlist
    rw [removals_wholeLog each removes]
    exact removed all htold
  removed_only := by
    intro name hname
    rw [removals_wholeLog each removes] at hname
    have hlist := (list_mem_wholeLog (o := o) each removes).mpr rfl
    cases htold : Podman.listed o with
    | error e =>
      rw [unlisted e htold] at hname
      cases hname
    | ok all =>
      rw [removed all htold] at hname
      obtain ⟨hmem, hfree⟩ := List.mem_filter.mp hname
      refine ⟨workers, o, all, rfl, hlist, htold, hmem, fun worker hworker => ?_⟩
      simpa using List.all_eq_true.mp hfree worker hworker
  fails_iff := by
    rw [ends]
    simp only [not_error_mem_wholeLog each removes, exists_false, false_or,
      list_mem_wholeLog each removes, exists_eq_left, exists_and_left]

end Whole

theorem Cycle.confined {result : Except SyncError Unit} (h : Cycle log result) :
    Confined log result := by
  cases h with
  | workersNotListed e =>
    refine ⟨nofun, nofun, nofun, fun name hname => ?_, iff_of_true ⟨_, rfl⟩ (.inl ⟨e, ?_⟩)⟩
    · cases hname
    · exact List.mem_singleton.mpr rfl
  | @containersNotListed workers turns o e each told =>
    have hconfined := each.imp fun _ _ => Turn.confined
    have hnone : ([] : SyncTranscript).map (·.question) =
        ([] : List String).map fun name => .host (Podman.removeArguments name) := rfl
    refine confined_wholeLog hconfined hnone (fun all htold => ?_) (fun _ _ => rfl)
      (iff_of_true ⟨_, rfl⟩ ⟨e, told⟩)
    exact nomatch told.symm.trans htold
  | @completed workers turns o all rest each told removes =>
    have hconfined := each.imp fun _ _ => Turn.confined
    refine confined_wholeLog hconfined removes (fun all' htold => ?_) (fun e htold => ?_)
      (iff_of_false nofun ?_)
    · rw [Except.ok.inj (told.symm.trans htold)]
    · exact nomatch told.symm.trans htold
    · rintro ⟨e, htold⟩
      exact nomatch told.symm.trans htold

/-- **Failures in a cycle stay where they are**, however the store and the host answer. -/
theorem sync_confined {σ : Type} (answer : (q : Ask) → σ → Reply q × σ) (state : σ) :
    Confined (sync.conduct answer state).log (sync.conduct answer state).result :=
  (sync_leads_done_iff.mp (sync.conduct_leads state)).confined

end JobOperator.Launcher
