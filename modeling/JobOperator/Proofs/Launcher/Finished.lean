import JobOperator.Proofs.Launcher.Discipline
import JobOperator.Proofs.Store.Listing
import JobOperator.Rehearsal.Host

/-!
# Workers that have finished

A cycle looks at the container of a worker before it looks at the worker. Whether the worker has
finished is asked only where there is no container; whatever the state of a container is, it is
written down.

* `Launcher.Serves`: the cycle's calls are answered by a store, while others are at work there too
  and leave one worker alone.
* `Launcher.Shows`: a report on a container shows that its state is of this kind.
* `Launcher.finished_stays_iff`: a worker that has finished stays as it is exactly if nothing
  else is ever **reported** of its container.
* `Launcher.not_finished_stays`: this may happen, to a worker whose container was created and
  could not be started.
-/

namespace JobOperator.Launcher

/-- A store answers the calls of a transcript. Others may call as well, but nobody else touches
the worker of this name. -/
inductive Serves (name : String) : MemoryStore → SyncTranscript → MemoryStore → Prop where
  | done (m : MemoryStore) : Serves name m [] m
  | call {m m' : MemoryStore} {log : SyncTranscript} (clock : Instant) (call : StoreCall)
      (rest : Serves name (m.answer clock call).2 log m') :
      Serves name m (⟨.store call, (m.answer clock call).1⟩ :: log) m'
  | host {m m' : MemoryStore} {log : SyncTranscript} (arguments : Podman.Invocation)
      (o : Podman.Outcome) (rest : Serves name m log m') :
      Serves name m (command arguments o :: log) m'
  | notify {m m' : MemoryStore} {log : SyncTranscript} (job : String)
      (rest : Serves name m log m') : Serves name m (⟨.notify job, ()⟩ :: log) m'
  | meanwhile {m m' : MemoryStore} {log : SyncTranscript} (clock : Instant) (call : StoreCall)
      (spared : (m.answer clock call).2.workers.get? name = m.workers.get? name)
      (rest : Serves name (m.answer clock call).2 log m') : Serves name m log m'

/-- A report on the container of this name shows a state that stands for the phase. -/
def Shows (log : SyncTranscript) (name : String) (phase : Worker.Phase) : Prop :=
  ∃ o state, command (Podman.inspectArguments name) o ∈ log ∧
    Podman.inspected name o = .ok (some state) ∧ state.workerPhase = phase

/-- The phase that a question is about to write for a worker. -/
def phaseWritten (name : String) : Ask → Option Worker.Phase
  | .store (.updateWorkerPhase n phase) => if n = name then some phase else none
  | _ => none

/-- The phases that a cycle has written for a worker, oldest first. -/
def phasesWritten (name : String) (log : SyncTranscript) : List Worker.Phase :=
  log.filterMap fun x => phaseWritten name x.question

/-- Cycles, one after another, each with the store that it leaves behind. -/
inductive Cycles (name : String) : MemoryStore → List (SyncTranscript × MemoryStore) → Prop where
  | none (m : MemoryStore) : Cycles name m []
  | next {m m' : MemoryStore} {log : SyncTranscript} {result : Except SyncError Unit}
      {later : List (SyncTranscript × MemoryStore)} (serves : Serves name m log m')
      (ends : sync.Leads log (.done result)) (rest : Cycles name m' later) :
      Cycles name m ((log, m') :: later)

variable {name : String} {m m' : MemoryStore} {log : SyncTranscript} {worker : Worker}
  {workers : List Worker} {phase : Worker.Phase} {s : SyncScript (Except SyncError Unit)}

/-! ## What a cycle writes -/

theorem phaseWritten_self :
    phaseWritten name (.store (.updateWorkerPhase name phase)) = some phase := if_pos rfl

theorem phaseWritten_of_ne {n : String} (h : n ≠ name) :
    phaseWritten name (.store (.updateWorkerPhase n phase)) = none := if_neg h

theorem phasesWritten_append (log more : SyncTranscript) : phasesWritten name (log ++ more) =
    phasesWritten name log ++ phasesWritten name more := List.filterMap_append

theorem phasesWritten_cons_some {x : Script.Exchange Ask Reply}
    (h : phaseWritten name x.question = some phase) (log : SyncTranscript) :
    phasesWritten name (x :: log) = phase :: phasesWritten name log := List.filterMap_cons_some h

theorem phasesWritten_cons_none {x : Script.Exchange Ask Reply}
    (h : phaseWritten name x.question = none) (log : SyncTranscript) :
    phasesWritten name (x :: log) = phasesWritten name log := List.filterMap_cons_none h

theorem mem_phasesWritten : phase ∈ phasesWritten name log ↔
    ∃ reply, ⟨.store (.updateWorkerPhase name phase), reply⟩ ∈ log := by
  constructor
  · intro h
    obtain ⟨⟨question, reply⟩, hmem, hphase⟩ := List.mem_filterMap.mp h
    dsimp only [phaseWritten] at hphase
    split at hphase
    · obtain ⟨rfl, hsome⟩ := Option.ite_none_right_eq_some.mp hphase
      obtain rfl := Option.some.inj hsome
      exact ⟨reply, hmem⟩
    · cases hphase
  · rintro ⟨reply, hmem⟩
    exact List.mem_filterMap.mpr ⟨_, hmem, phaseWritten_self⟩

/-- A worker that has finished is found in a phase only if its container is. -/
theorem Found.shows {asked : SyncTranscript} (h : Found worker asked phase)
    (finished : worker.phase.finished) : Shows asked worker.name phase := by
  cases h with
  | state told => exact ⟨_, _, List.mem_singleton.mpr rfl, told, rfl⟩
  | lost _ running =>
    rw [running] at finished
    cases finished
  | refused _ pending =>
    rw [pending] at finished
    cases finished

/-- The container that is looked at is that of the worker, and what is found is its state. -/
theorem Found.of_shows {asked : SyncTranscript} {phase' : Worker.Phase}
    (h : Found worker asked phase) (hshow : Shows asked name phase') :
    worker.name = name ∧ phase' = phase := by
  obtain ⟨o, state, hmem, htold, rfl⟩ := hshow
  cases h with
  | state told =>
    obtain ⟨rfl, rfl⟩ : name = worker.name ∧ o = _ := by simpa using hmem
    rw [told] at htold
    cases htold
    exact ⟨rfl, rfl⟩
  | lost told | refused told =>
    obtain ⟨rfl, rfl⟩ : name = worker.name ∧ o = _ := by simpa using hmem
    rw [told] at htold
    cases htold

theorem Unmoved.not_shows {asked : SyncTranscript} (h : Unmoved worker asked) :
    ¬ Shows asked name phase := by
  rintro ⟨o, state, hmem, htold, -⟩
  cases h with
  | unseen told | ended told | launched told =>
    obtain ⟨rfl, rfl⟩ : name = worker.name ∧ o = _ := by simpa using hmem
    rw [told] at htold
    cases htold

/-- What is found of a container is written down, unless it is known. -/
theorem Turn.of_shows {turn : SyncTranscript} (h : Turn worker turn)
    (hshow : Shows turn name phase) : worker.name = name ∧ (phase = worker.phase ∨
      phase ∈ phasesWritten name turn) := by
  cases h with
  | unmoved h => exact absurd hshow h.not_shows
  | same found =>
    obtain ⟨hname, rfl⟩ := found.of_shows hshow
    exact ⟨hname, .inl rfl⟩
  | @written asked phase' found _ reply =>
    have hasked : Shows asked name phase := by
      obtain ⟨o, state, hmem, htold⟩ := hshow
      refine ⟨o, state, (List.mem_append.mp hmem).resolve_right fun hrest => ?_, htold⟩
      -- the rest is no command line
      cases reply <;> simp [notices] at hrest
    obtain ⟨rfl, rfl⟩ := found.of_shows hasked
    exact ⟨rfl, .inr (mem_phasesWritten.mpr ⟨reply, by simp⟩)⟩

theorem turns_of_shows {turns : List SyncTranscript} (h : List.Forall₂ Turn workers turns)
    (hshow : Shows turns.flatten name phase) :
    ∃ v ∈ workers, v.name = name ∧
      (phase = v.phase ∨ phase ∈ phasesWritten name turns.flatten) := by
  obtain ⟨o, state, hmem, htold⟩ := hshow
  induction h with
  | nil => cases hmem
  | @cons v turn workers turns hturn _ ih =>
    rw [List.flatten_cons, phasesWritten_append]
    rcases List.mem_append.mp hmem with hmem | hmem
    · obtain ⟨hname, hwritten⟩ := hturn.of_shows ⟨o, state, hmem, htold⟩
      exact ⟨v, List.mem_cons_self .., hname, hwritten.imp_right (List.mem_append_left _)⟩
    · obtain ⟨v, hv, hname, hwritten⟩ := ih hmem
      exact ⟨v, List.mem_cons_of_mem _ hv, hname, hwritten.imp_right (List.mem_append_right _)⟩

/-- Only workers that are listed are inspected. What a cycle is told then is in its turns. -/
theorem Cycle.turns {result : Except SyncError Unit} (h : Cycle log result)
    (hshow : Shows log name phase) : ∃ workers turns rest, Lists log workers ∧
      List.Forall₂ Turn workers turns ∧ Shows turns.flatten name phase ∧
      log = ⟨.store (.listWorkers none), .ok workers⟩ :: (turns.flatten ++ rest) := by
  obtain ⟨o, state, hmem, htold⟩ := hshow
  cases h with
  | workersNotListed => simp [command] at hmem
  | @containersNotListed workers turns _ _ each =>
    refine ⟨workers, turns, _, rfl, each, ⟨o, state, ?_, htold⟩, rfl⟩
    simpa [command] using hmem
  | @completed workers turns _ names removals each _ removes =>
    refine ⟨workers, turns, _, rfl, each, ⟨o, state, ?_, htold⟩, rfl⟩
    have hremoval : command (Podman.inspectArguments name) o ∉ removals := by
      intro hin
      have hquestion := List.mem_map_of_mem (f := (·.question)) hin
      rw [removes] at hquestion
      obtain ⟨other, -, heq⟩ := List.mem_map.mp hquestion
      exact Podman.inspect_ne_remove (Ask.host.inj heq).symm
    simpa [command, hremoval] using hmem

/-- If the state of a container stands for another phase than the one that is listed, the cycle
writes this phase. -/
theorem Cycle.writes {result : Except SyncError Unit} (h : Cycle log result)
    (hshow : Shows log name phase) : ∃ workers, Lists log workers ∧
      ∃ v ∈ workers, v.name = name ∧ (phase = v.phase ∨ phase ∈ phasesWritten name log) := by
  obtain ⟨workers, turns, rest, hlists, each, hshow', rfl⟩ := h.turns hshow
  obtain ⟨v, hv, hname, hwritten⟩ := turns_of_shows each hshow'
  refine ⟨workers, hlists, v, hv, hname, hwritten.imp_right fun hmem => ?_⟩
  rw [phasesWritten_cons_none rfl, phasesWritten_append]
  exact List.mem_append_left _ hmem

/-- A cycle writes the phase of a worker that had finished only if it was told of its container,
and never the phase that is listed. -/
theorem grounds_of_phasesWritten (hl : sync.Leads log s) (hmem : phase ∈ phasesWritten name log) :
    ∃ workers, Lists log workers ∧ ∃ v ∈ workers, v.name = name ∧ phase ≠ v.phase ∧
      (v.phase.finished → Shows log name phase) := by
  obtain ⟨reply, hcall⟩ := mem_phasesWritten.mp hmem
  obtain ⟨before, after, rfl⟩ := List.append_of_mem hcall
  obtain ⟨workers, v, earlier, asked, hlists, hv, rfl, hfound, hne, rfl⟩ :=
    hl.rule_of_mem sync_grounded rfl
  refine ⟨workers, hlists.append _, v, hv, rfl, hne, fun finished => ?_⟩
  obtain ⟨o, state, hasked, htold⟩ := hfound.shows finished
  exact ⟨o, state, List.mem_append_left _ (List.mem_append_right _ hasked), htold⟩

/-- A cycle calls the store to list the workers and to write their phases. -/
theorem calls_of_mem {call : StoreCall} {reply : call.Answer} (hl : sync.Leads log s)
    (hmem : ⟨.store call, reply⟩ ∈ log) :
    call = .listWorkers none ∨ ∃ name phase, call = .updateWorkerPhase name phase := by
  obtain ⟨before, after, rfl⟩ := List.append_of_mem hmem
  have hrule := hl.rule_of_mem sync_grounded rfl
  cases call with
  | listWorkers owner => exact .inl (hrule.1 ▸ rfl)
  | updateWorkerPhase name phase => exact .inr ⟨name, phase, rfl⟩
  | _ => exact hrule.elim

/-! ## What the store makes of it -/

theorem Serves.filed (h : Serves name m log m') (filed : m.Filed) : m'.Filed := by
  induction h with
  | done => exact filed
  | @call m _ _ clock call _ ih => exact ih (filed.change (m.answer_change clock call))
  | host _ _ _ ih | notify _ _ ih => exact ih filed
  | @meanwhile m _ _ clock call _ _ ih => exact ih (filed.change (m.answer_change clock call))

/-- The list that a cycle works from has the worker on it, and nobody else of this name. -/
theorem Serves.listed (h : Serves name m log m') (hlists : Lists log workers) (filed : m.Filed)
    (found : m.workers.get? name = some worker) :
    worker ∈ workers ∧ ∀ v ∈ workers, v.name = name → v = worker := by
  induction h with
  | done => cases hlists
  | @call m _ _ clock call _ _ =>
    have hfirst := Option.some.inj hlists
    obtain rfl : call = .listWorkers none :=
      Ask.store.inj (congrArg Script.Exchange.question hfirst)
    obtain rfl : m.listWorkers none = workers := Except.ok.inj (Script.Exchange.reply_inj hfirst)
    obtain rfl := filed name worker found
    exact ⟨filed.mem_listWorkers.mpr found, fun v hv hname => filed.eq_of_listed found hv hname⟩
  | host | notify => cases hlists
  | @meanwhile m _ _ clock call spared _ ih =>
    exact ih hlists (filed.change (m.answer_change clock call)) (spared.trans found)

/-- A worker keeps its record. Its phase is the one that was written last, if any was. -/
theorem Serves.record (h : Serves name m log m')
    (hcalls : ∀ (call : StoreCall) (reply : call.Answer), ⟨.store call, reply⟩ ∈ log →
      call = .listWorkers none ∨ ∃ name phase, call = .updateWorkerPhase name phase)
    (found : m.workers.get? name = some worker) : m'.workers.get? name =
      some { worker with phase := (phasesWritten name log).getLastD worker.phase } := by
  induction h generalizing worker with
  | done => exact found
  | @call m _ log clock call _ ih =>
    have hlater := fun call reply hmem => hcalls call reply (List.mem_cons_of_mem _ hmem)
    obtain rfl | ⟨n, phase, rfl⟩ := hcalls call _ (List.mem_cons_self ..)
    · exact ih hlater found
    · by_cases hname : n = name
      · subst hname
        have hwritten : (m.answer clock (.updateWorkerPhase n phase)).2.workers.get? n =
            some { worker with phase } := by
          rw [MemoryStore.answer, MemoryStore.get?_updateWorkerPhase, if_pos rfl, found]
          rfl
        rw [phasesWritten_cons_some phaseWritten_self, List.getLastD_cons]
        exact ih hlater hwritten
      · rw [phasesWritten_cons_none (phaseWritten_of_ne hname)]
        refine ih hlater ?_
        rw [MemoryStore.answer, MemoryStore.get?_updateWorkerPhase, if_neg hname, found]
  | host _ _ _ ih | notify _ _ ih =>
    exact ih (fun call reply hmem => hcalls call reply (List.mem_cons_of_mem _ hmem)) found
  | @meanwhile m _ _ clock call spared _ ih => exact ih hcalls (spared.trans found)

/-- What has become of a worker that had finished before a cycle: nothing, unless its container
was found in a state that stands for another phase. -/
theorem Serves.outcome {result : Except SyncError Unit} (h : Serves name m log m')
    (ends : sync.Leads log (.done result)) (filed : m.Filed)
    (found : m.workers.get? name = some worker) (finished : worker.phase.finished) :
    ((∀ phase, Shows log name phase → phase = worker.phase) ∧
        m'.workers.get? name = some worker) ∨
      ∃ phase, Shows log name phase ∧ phase ≠ worker.phase ∧
        m'.workers.get? name = some { worker with phase } := by
  have hrecord := h.record (fun _ _ => calls_of_mem ends) found
  rcases List.eq_nil_or_concat (phasesWritten name log) with hnone | ⟨earlier, phase, hlast⟩
  · rw [hnone] at hrecord
    refine .inl ⟨fun phase hshow => ?_, hrecord⟩
    have hcycle : Cycle log result := sync_grounded.leads ends
    obtain ⟨workers, hlists, v, hv, hname, rfl | hwritten⟩ := hcycle.writes hshow
    · rw [(h.listed hlists filed found).2 v hv hname]
    · rw [hnone] at hwritten
      cases hwritten
  · have hmem : phase ∈ phasesWritten name log := by simp [hlast]
    obtain ⟨workers, hlists, v, hv, hname, hne, hshows⟩ := grounds_of_phasesWritten ends hmem
    obtain rfl := (h.listed hlists filed found).2 v hv hname
    rw [hlast] at hrecord
    exact .inr ⟨phase, hshows finished, hne, by simpa using hrecord⟩

/-! ## Cycle after cycle -/

/-- **What has finished stays finished** exactly as long as nothing is reported of its container,
in any of the cycles, but what is recorded. -/
theorem finished_stays_iff {cycles : List (SyncTranscript × MemoryStore)} (filed : m.Filed)
    (found : m.workers.get? name = some worker) (finished : worker.phase.finished)
    (h : Cycles name m cycles) :
    (∀ cycle ∈ cycles, (cycle.2.workers.get? name).map (·.phase) = some worker.phase) ↔
      ∀ cycle ∈ cycles, ∀ phase, Shows cycle.1 name phase → phase = worker.phase := by
  induction h with
  | none => exact ⟨fun _ => List.forall_mem_nil _, fun _ => List.forall_mem_nil _⟩
  | @next m m' log result later serves ends _ ih =>
    rw [List.forall_mem_cons, List.forall_mem_cons]
    have houtcome := serves.outcome ends filed found finished
    rcases houtcome with ⟨hsame, hfound⟩ | ⟨phase, hshow, hne, hfound⟩
    · rw [ih (serves.filed filed) hfound]
      dsimp only
      rw [hfound]
      exact and_congr_left fun _ => iff_of_true rfl hsame
    · refine iff_of_false (fun hstays => hne ?_) fun hshows => hne (hshows.1 phase hshow)
      have hphase := hstays.1
      dsimp only at hphase
      rw [hfound] at hphase
      exact Option.some.inj hphase

/-- The launch of this worker has failed. -/
def stillborn : Worker where
  name := "bell-worker-0"
  owner := ⟨"bell", .ofNat 1⟩
  spec := { image := "aer:0.15" }
  phase := .failed
  createdAt := .ofSecond 0

/-- A store in which there is only this worker. -/
def holding (worker : Worker) : MemoryStore :=
  { workers := (∅ : Table Worker).insert worker.name worker }

theorem holding_filed (worker : Worker) : (holding worker).Filed := by
  intro n w hw
  rw [holding, Table.get?_insert] at hw
  split at hw
  · next hname => exact Option.some.inj hw ▸ hname
  · cases hw

/-- A cycle with one worker, which is told of the state of its container. -/
def sighting (state : ContainerState) (writes : SyncTranscript) : SyncTranscript :=
  ⟨.store (.listWorkers none), .ok [stillborn]⟩ ::
    ([command (Podman.inspectArguments "bell-worker-0")
        (Rehearsal.Host.success (Rehearsal.Host.report state)) :: writes].flatten ++
      [command Podman.listArguments (Rehearsal.Host.success "bell-worker-0\n")])

theorem ok_of_toOption {ε α : Type} {x : Except ε α} {a : α} (h : x.toOption = some a) :
    x = .ok a := by
  cases x with
  | ok b => exact congrArg _ (Option.some.inj h)
  | error => cases h

theorem sighting_ends {state : ContainerState} {writes : SyncTranscript}
    (turn : Turn stillborn (command (Podman.inspectArguments "bell-worker-0")
      (Rehearsal.Host.success (Rehearsal.Host.report state)) :: writes)) :
    sync.Leads (sighting state writes) (.done (.ok ())) := by
  have hlisted : Podman.listed (Rehearsal.Host.success "bell-worker-0\n") = .ok ["bell-worker-0"] :=
    ok_of_toOption (by decide +kernel)
  exact Cycle.leads (.completed (.cons turn .nil) hlisted rfl)

/-- The container could be created, and has never run. -/
theorem inspected_created : Podman.inspected stillborn.name
    (Rehearsal.Host.success (Rehearsal.Host.report ⟨"created", 0⟩)) = .ok (some ⟨"created", 0⟩) :=
  ok_of_toOption (by decide +kernel)

/-- The container has run, and has failed. -/
theorem inspected_exited : Podman.inspected stillborn.name
    (Rehearsal.Host.success (Rehearsal.Host.report ⟨"exited", 3⟩)) = .ok (some ⟨"exited", 3⟩) :=
  ok_of_toOption (by decide +kernel)

/-- The container is as it was, and so is the worker. -/
theorem finished_stays_stillborn : (holding stillborn).Filed ∧
    (holding stillborn).workers.get? "bell-worker-0" = some stillborn ∧
    stillborn.phase.finished ∧
    Cycles "bell-worker-0" (holding stillborn) [(sighting ⟨"exited", 3⟩ [], holding stillborn)] ∧
    ∀ cycle ∈ [(sighting ⟨"exited", 3⟩ [], holding stillborn)],
      (cycle.2.workers.get? "bell-worker-0").map (·.phase) = some .failed := by
  have hcycles : Cycles "bell-worker-0" (holding stillborn)
      [(sighting ⟨"exited", 3⟩ [], holding stillborn)] :=
    .next (.call (.ofSecond 0) (.listWorkers none) (.host _ _ (.host _ _ (.done _))))
      (sighting_ends (.same (.state inspected_exited))) (.none _)
  refine ⟨holding_filed _, rfl, rfl, hcycles, ?_⟩
  refine (finished_stays_iff (holding_filed stillborn) rfl rfl hcycles).mpr ?_
  refine List.forall_mem_singleton.mpr ?_
  rintro _ ⟨o, state, hmem, htold, rfl⟩
  obtain rfl : o = _ := by simpa [sighting] using hmem
  obtain rfl := Option.some.inj (Except.ok.inj (inspected_exited.symm.trans htold))
  rfl

/-- A worker that has failed may wait again: its container was created when it was launched. -/
theorem not_finished_stays : ¬ ∀ (name : String) (m : MemoryStore) (worker : Worker)
    (cycles : List (SyncTranscript × MemoryStore)), m.Filed →
    m.workers.get? name = some worker → worker.phase.finished → Cycles name m cycles →
    ∀ cycle ∈ cycles, (cycle.2.workers.get? name).map (·.phase) = some worker.phase := by
  intro hstays
  have hcycles : Cycles "bell-worker-0" (holding stillborn)
      [(sighting ⟨"created", 0⟩ [⟨.store (.updateWorkerPhase "bell-worker-0" .pending),
          .ok { stillborn with phase := .pending }⟩, ⟨.notify "bell", ()⟩],
        holding { stillborn with phase := .pending })] :=
    .next (.call (.ofSecond 0) (.listWorkers none) (.host _ _
        (.call (.ofSecond 0) (.updateWorkerPhase "bell-worker-0" .pending)
          (.notify _ (.host _ _ (.done _))))))
      (sighting_ends (.written (.state inspected_created) (by decide) _)) (.none _)
  have hphase := hstays _ _ stillborn _ (holding_filed _) rfl rfl hcycles _ (List.mem_cons_self ..)
  cases hphase

end JobOperator.Launcher
