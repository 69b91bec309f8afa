import JobOperator.Proofs.Container.Host
import JobOperator.Proofs.Store.Listing

/-!
# A cycle that nothing disturbs

The store answers, the host does what command lines say, and nobody else is at work in them. Then a
cycle comes to its end, and what it leaves can be told from what it finds. The host hears of a
command line only if all its arguments can be handed over. Names of workers can; what else a job is
made of need not be such, and then its container cannot be started.

* `Launcher.Setting`: a store and the containers of a host.
* `Launcher.launchable`: the command line that starts the container of a worker can be handed over.
* `Launcher.Setting.settle`, `Launcher.dueContainer`: what a cycle makes of a worker and of its
  container, by what they are **before** the cycle.
* `Launcher.Attended`: what has come of the turns of some workers. The turns of different workers do
  not touch each other (`Launcher.Attended.append`), and this carries the induction on the list.
* `Launcher.Settled`: what has come of a cycle: all workers, all containers, and all that was
  launched and told. `Launcher.sync_settled`: **every cycle ends so**.
-/

namespace JobOperator.Launcher

open Rehearsal.Host (takes passable)

/-! ## What a cycle is to do -/

/-- A store and the containers of a host. -/
structure Setting where
  store : MemoryStore
  containers : Table ContainerState

/-- What has come of a program of the launcher. -/
abbrev Conducted (α : Type) : Type := Script.Conduct Ask Reply α Setting

/-- The command line that starts the container of a worker can be handed over to the host. -/
def launchable (worker : Worker) : Bool := takes (Podman.runArguments worker)

/-- The phase in which a cycle leaves a worker that has this container, or none. -/
def duePhase (worker : Worker) : Option ContainerState → Worker.Phase
  | some state => state.workerPhase
  | none =>
    match worker.phase with
    | .pending => if launchable worker then .pending else .failed
    | .running => .failed
    | phase => phase

/-- The container with which a cycle leaves a worker that has this one, or none. -/
def dueContainer (worker : Worker) : Option ContainerState → Option ContainerState
  | some state => some state
  | none => if worker.phase = .pending ∧ launchable worker then some ⟨"running", 0⟩ else none

namespace Setting

/-- What a cycle is answered. The store meets no faults, and for the host nothing is scripted. -/
def answer (clock : Instant) : (q : Ask) → Setting → Reply q × Setting
  | .store call, s =>
    let (reply, store) := s.store.answer clock call
    (reply, { s with store })
  | .host arguments, s =>
    let (outcome, host) := Rehearsal.Host.execute arguments { containers := s.containers }
    (outcome, { s with containers := host.containers })
  | .notify _, s => ((), s)

/-- The container of a worker. -/
def container? (s : Setting) (worker : Worker) : Option ContainerState :=
  s.containers.get? worker.name

/-- A worker as a cycle leaves it. -/
def settle (s : Setting) (worker : Worker) : Worker :=
  { worker with phase := duePhase worker (s.container? worker) }

/-- A cycle changes the phase of the worker. -/
def stirs (s : Setting) (worker : Worker) : Bool :=
  duePhase worker (s.container? worker) ≠ worker.phase

/-- The worker waits for a container. -/
def awaits (s : Setting) (worker : Worker) : Bool :=
  worker.phase = .pending ∧ s.container? worker = none

/-- One cycle. -/
def cycle (s : Setting) (clock : Instant) : Conducted (Except SyncError Unit) :=
  sync.conduct (answer clock) s

end Setting

/-- The command line with which a question asks for a container to be launched. -/
def launch? : Ask → Option Podman.Invocation
  | .host arguments => if arguments.head? = some "run" then some arguments else none
  | _ => none

/-- The job of which a question tells the controller. -/
def notice? : Ask → Option String
  | .notify job => some job
  | _ => none

/-- The command lines that were to launch containers, oldest first. -/
def launches (log : SyncTranscript) : List Podman.Invocation :=
  log.filterMap fun x => launch? x.question

/-- The jobs of which the controller was told, as often as it was told of them, oldest first. -/
def told (log : SyncTranscript) : List String := log.filterMap fun x => notice? x.question

theorem launches_append (log more : SyncTranscript) :
    launches (log ++ more) = launches log ++ launches more := List.filterMap_append

theorem told_append (log more : SyncTranscript) : told (log ++ more) = told log ++ told more :=
  List.filterMap_append

/-- What has come of the turns of some workers. -/
structure Attended (s : Setting) (workers : List Worker) (turns : Conducted Unit) : Prop where
  jobs : turns.state.store.jobs = s.store.jobs
  record : ∀ worker ∈ workers,
    turns.state.store.workers.get? worker.name = some (s.settle worker)
  container : ∀ worker ∈ workers,
    turns.state.container? worker = dueContainer worker (s.container? worker)
  /-- nobody else is touched -/
  others : ∀ name, (∀ worker ∈ workers, worker.name ≠ name) →
    turns.state.store.workers.get? name = s.store.workers.get? name ∧
      turns.state.containers.get? name = s.containers.get? name
  launches : launches turns.log = (workers.filter s.awaits).map Podman.runArguments
  told : told turns.log = (workers.filter s.stirs).map (·.owner.name)

/-- What has come of a cycle. -/
structure Settled (s : Setting) (cycle : Conducted (Except SyncError Unit)) : Prop where
  result : cycle.result = .ok ()
  jobs : cycle.state.store.jobs = s.store.jobs
  records : ∀ name,
    cycle.state.store.workers.get? name = (s.store.workers.get? name).map s.settle
  containers : ∀ name worker, s.store.workers.get? name = some worker →
    cycle.state.containers.get? name = dueContainer worker (s.container? worker)
  /-- containers without a worker go, if the host can be told their names -/
  strays : ∀ name, s.store.workers.get? name = none →
    cycle.state.containers.get? name = if passable name then none else s.containers.get? name
  launches : launches cycle.log =
    ((s.store.listWorkers none).filter s.awaits).map Podman.runArguments
  told : told cycle.log = ((s.store.listWorkers none).filter s.stirs).map (·.owner.name)

variable {s : Setting} {worker : Worker} {workers : List Worker}

/-! ## One turn -/

namespace Setting

/-- A setting in which the worker has a container, if it waits for one and can get one. -/
def provided (s : Setting) (worker : Worker) : Setting :=
  if s.awaits worker ∧ launchable worker then
    ⟨s.store, s.containers.insert worker.name ⟨"running", 0⟩⟩
  else s

/-- The host as it has been handed over a command line. -/
def host (s : Setting) (arguments : Podman.Invocation) : Rehearsal.Host :=
  { containers := s.containers, executed := [arguments] }

/-- What comes of a command line that can be handed over. -/
theorem answer_taken {arguments : Podman.Invocation} (clock : Instant) (s : Setting)
    (htakes : takes arguments) :
    answer clock (.host arguments) s = (((s.host arguments).obey arguments).1,
      ⟨s.store, ((s.host arguments).obey arguments).2.containers⟩) := by
  rw [answer, Rehearsal.Host.execute_taken htakes]
  rfl

/-- Of a command line that cannot be handed over comes nothing. -/
theorem answer_not_taken {arguments : Podman.Invocation} (clock : Instant) (s : Setting)
    (htakes : ¬ takes arguments) : answer clock (.host arguments) s = (.notExecuted, s) := by
  rw [answer, Rehearsal.Host.execute_not_taken htakes]

theorem awaits_iff : s.awaits worker ↔ worker.phase = .pending ∧ s.container? worker = none :=
  decide_eq_true_iff

theorem stirs_iff : s.stirs worker ↔ duePhase worker (s.container? worker) ≠ worker.phase :=
  decide_eq_true_iff

theorem provided_of_not_awaits (h : ¬ s.awaits worker) : s.provided worker = s :=
  if_neg fun hwaits => h hwaits.1

theorem provided_store (s : Setting) (worker : Worker) : (s.provided worker).store = s.store := by
  rw [provided]
  split <;> rfl

end Setting

/-- What comes of looking at the container of a worker. -/
theorem answer_inspect (clock : Instant) (named : passable worker.name)
    (ranged : ∀ state, s.container? worker = some state → state.Ranged) :
    Podman.inspected worker.name
        (Setting.answer clock (.host (Podman.inspectArguments worker.name)) s).1 =
          .ok (s.container? worker) ∧
      (Setting.answer clock (.host (Podman.inspectArguments worker.name)) s).2 = s := by
  have htakes : takes (Podman.inspectArguments worker.name) :=
    (Rehearsal.Host.takes_inspectArguments worker.name).trans named
  rw [Setting.answer_taken clock s htakes, Rehearsal.Host.obey_inspect]
  exact ⟨Rehearsal.Host.inspected_obey ranged, rfl⟩

/-- What comes of asking for the container of a worker that has none. -/
theorem answer_run (clock : Instant) (hawaits : s.awaits worker) :
    (launchable worker → Podman.started worker
        (Setting.answer clock (.host (Podman.runArguments worker)) s).1 = .ok ()) ∧
      (¬ launchable worker → Podman.started worker
        (Setting.answer clock (.host (Podman.runArguments worker)) s).1 =
          .error (.notExecuted "run")) ∧
      (Setting.answer clock (.host (Podman.runArguments worker)) s).2 = s.provided worker := by
  cases hlaunchable : launchable worker with
  | true =>
    have hrun := Rehearsal.Host.obey_run (h := s.host (Podman.runArguments worker))
      (Setting.awaits_iff.mp hawaits).2
    have hprovided : s.provided worker =
        ⟨s.store, s.containers.insert worker.name ⟨"running", 0⟩⟩ :=
      if_pos ⟨hawaits, hlaunchable⟩
    rw [Setting.answer_taken clock s hlaunchable, hrun, hprovided]
    exact ⟨fun _ => rfl, fun hnever => absurd rfl hnever, rfl⟩
  | false =>
    have hnever : ¬ takes (Podman.runArguments worker) := by
      rw [← launchable, hlaunchable]
      decide
    have hprovided : s.provided worker = s := if_neg fun h => hnever h.2
    rw [Setting.answer_not_taken clock s hnever, hprovided]
    exact ⟨nofun, fun _ => rfl, rfl⟩

/-- A worker is looked at, and a container is asked for if it waits for one. What is found is the
phase that is due. -/
theorem observedPhase_conduct (clock : Instant) (named : passable worker.name)
    (ranged : ∀ state, s.container? worker = some state → state.Ranged) :
    ∃ found asked, (observedPhase worker).conduct (Setting.answer clock) s =
        ⟨found, asked, s.provided worker⟩ ∧
      found.getD worker.phase = duePhase worker (s.container? worker) ∧
      launches asked = (if s.awaits worker then [Podman.runArguments worker] else []) ∧
      told asked = [] := by
  obtain ⟨htold, hsame⟩ := answer_inspect clock named ranged
  rw [observedPhase, Podman.inspect_eq, onHost_ask_bind, Script.conduct, htold, hsame]
  cases hcontainer : s.container? worker with
  | some state =>
    have hawaits : ¬ s.awaits worker := by simp [Setting.awaits_iff, hcontainer]
    rw [s.provided_of_not_awaits hawaits, if_neg hawaits]
    exact ⟨_, _, rfl, rfl, rfl, rfl⟩
  | none =>
    have hwaits : s.awaits worker ↔ worker.phase = .pending := by
      simp [Setting.awaits_iff, hcontainer]
    cases hphase : worker.phase with
    | pending =>
      have hawaits : s.awaits worker := hwaits.mpr hphase
      dsimp only
      rw [Podman.run_eq, onHost_ask_bind, Script.conduct, if_pos hawaits, duePhase, hphase]
      obtain ⟨hstarted, hrefused, hprovided⟩ := answer_run clock hawaits
      rw [hprovided]
      cases hlaunchable : launchable worker with
      | true =>
        rw [hstarted hlaunchable]
        exact ⟨none, _, rfl, rfl, rfl, rfl⟩
      | false =>
        rw [hrefused (Bool.eq_false_iff.mp hlaunchable)]
        exact ⟨some .failed, _, rfl, rfl, rfl, rfl⟩
    | running =>
      have hawaits : ¬ s.awaits worker := by simp [hwaits, hphase]
      rw [s.provided_of_not_awaits hawaits, if_neg hawaits]
      refine ⟨some .failed, _, rfl, ?_, rfl, rfl⟩
      rw [duePhase, hphase]
      rfl
    | succeeded | failed =>
      have hawaits : ¬ s.awaits worker := by simp [hwaits, hphase]
      rw [s.provided_of_not_awaits hawaits, if_neg hawaits]
      refine ⟨none, _, rfl, ?_, rfl, rfl⟩
      rw [duePhase, hphase]
      rfl

/-- What a worker's turn has left. -/
def Setting.turned (s : Setting) (worker : Worker) : Setting :=
  { s.provided worker with
    store := if s.stirs worker then
        (s.store.updateWorkerPhase worker.name (duePhase worker (s.container? worker))).2
      else s.store }

/-- The phase that is due is written down if it is another one, and the controller is told. -/
theorem syncWorker_conduct (clock : Instant)
    (found : s.store.workers.get? worker.name = some worker) (named : passable worker.name)
    (ranged : ∀ state, s.container? worker = some state → state.Ranged) :
    ∃ turn, (syncWorker worker).conduct (Setting.answer clock) s = ⟨(), turn, s.turned worker⟩ ∧
      launches turn = (if s.awaits worker then [Podman.runArguments worker] else []) ∧
      told turn = if s.stirs worker then [worker.owner.name] else [] := by
  obtain ⟨phase, asked, hconduct, hdue, hlaunches, htold⟩ :=
    observedPhase_conduct clock named ranged
  have hquiet : ¬ s.stirs worker → s.turned worker = s.provided worker ∧
      launches (asked ++ []) = (if s.awaits worker then [Podman.runArguments worker] else []) ∧
      told (asked ++ []) = if s.stirs worker then [worker.owner.name] else [] := by
    intro hstirs
    rw [Setting.turned, if_neg hstirs, if_neg hstirs, List.append_nil, ← s.provided_store worker]
    exact ⟨rfl, hlaunches, htold⟩
  rw [syncWorker, Script.conduct_bind, hconduct]
  dsimp only
  cases phase with
  | none =>
    obtain ⟨hturned, hlog⟩ := hquiet (by simp [Setting.stirs_iff, ← hdue])
    rw [hturned]
    exact ⟨_, rfl, hlog⟩
  | some phase =>
    obtain rfl : phase = duePhase worker (s.container? worker) := hdue
    dsimp only
    split
    · next hsame =>
      obtain ⟨hturned, hlog⟩ := hquiet (by simp [Setting.stirs_iff, hsame])
      rw [hturned]
      exact ⟨_, rfl, hlog⟩
    · next hother =>
      have hstirs : s.stirs worker := Setting.stirs_iff.mpr hother
      have hreply : (Setting.answer clock (.store (.updateWorkerPhase worker.name
          (duePhase worker (s.container? worker)))) (s.provided worker)).1 =
            .ok (s.settle worker) := by
        show ((s.provided worker).store.updateWorkerPhase _ _).1 = _
        rw [Setting.provided_store, MemoryStore.updateWorkerPhase, found]
        rfl
      have hturned : (Setting.answer clock (.store (.updateWorkerPhase worker.name
          (duePhase worker (s.container? worker)))) (s.provided worker)).2 = s.turned worker := by
        rw [Setting.turned, if_pos hstirs]
        show (⟨((s.provided worker).store.updateWorkerPhase _ _).2, _⟩ : Setting) = _
        rw [Setting.provided_store]
      rw [StoreScript.updateWorkerPhase, onStore_call_bind, Script.conduct, hreply, hturned,
        if_pos hstirs]
      refine ⟨_, rfl, ?_, ?_⟩
      · rw [launches_append, hlaunches]
        exact List.append_nil _
      · rw [told_append, htold]
        rfl

theorem settle_of_not_stirs (h : ¬ s.stirs worker) : s.settle worker = worker := by
  have hphase : duePhase worker (s.container? worker) = worker.phase := by
    simpa [Setting.stirs_iff] using h
  rw [Setting.settle, hphase]

theorem turned_jobs : (s.turned worker).store.jobs = s.store.jobs := by
  dsimp only [Setting.turned]
  split
  · exact MemoryStore.jobs_updateWorkerPhase ..
  · rfl

theorem turned_record (found : s.store.workers.get? worker.name = some worker) (name : String) :
    (s.turned worker).store.workers.get? name =
      if worker.name = name then some (s.settle worker) else s.store.workers.get? name := by
  dsimp only [Setting.turned]
  split
  · rw [MemoryStore.get?_updateWorkerPhase]
    split
    · next hname =>
      rw [← hname, found]
      rfl
    · rfl
  · next hstirs =>
    split
    · next hname => rw [← hname, found, settle_of_not_stirs hstirs]
    · rfl

theorem turned_container (name : String) : (s.turned worker).containers.get? name =
    if worker.name = name then dueContainer worker (s.container? worker)
    else s.containers.get? name := by
  have hdue : dueContainer worker (s.container? worker) =
      if s.awaits worker ∧ launchable worker then some ⟨"running", 0⟩
      else s.container? worker := by
    cases hcontainer : s.container? worker <;>
      simp [dueContainer, Setting.awaits_iff, hcontainer]
  rw [hdue]
  dsimp only [Setting.turned, Setting.provided]
  split
  · rw [Table.get?_insert]
  · split
    · next hname => rw [← hname, Setting.container?]
    · rfl

/-- A worker has had its turn. -/
theorem syncWorker_attended (clock : Instant)
    (found : s.store.workers.get? worker.name = some worker) (named : passable worker.name)
    (ranged : ∀ state, s.container? worker = some state → state.Ranged) :
    Attended s [worker] ((syncWorker worker).conduct (Setting.answer clock) s) := by
  obtain ⟨turn, hconduct, hlaunches, htold⟩ := syncWorker_conduct clock found named ranged
  rw [hconduct]
  refine ⟨turned_jobs, ?_, ?_, fun name hname => ?_, ?_, ?_⟩
  · exact List.forall_mem_singleton.mpr ((turned_record found _).trans (if_pos rfl))
  · exact List.forall_mem_singleton.mpr ((turned_container _).trans (if_pos rfl))
  · have hne : worker.name ≠ name := hname worker (List.mem_singleton.mpr rfl)
    exact ⟨(turned_record found name).trans (if_neg hne),
      (turned_container name).trans (if_neg hne)⟩
  · rw [hlaunches, List.filter_singleton]
    cases s.awaits worker <;> rfl
  · rw [htold, List.filter_singleton]
    cases s.stirs worker <;> rfl

/-! ## All turns -/

/-- The turns of some workers and then of others, none of whom has the name of one of the first. -/
theorem Attended.append {first rest : List Worker} {turns turns' : Conducted Unit}
    (h : Attended s first turns) (h' : Attended turns.state rest turns')
    (distinct : ∀ worker ∈ first, ∀ other ∈ rest, worker.name ≠ other.name) :
    Attended s (first ++ rest) { turns' with log := turns.log ++ turns'.log } := by
  have hspared : ∀ other ∈ rest, turns.state.container? other = s.container? other :=
    fun other hother => (h.others other.name fun worker hw => distinct worker hw other hother).2
  have hkept : ∀ worker ∈ first, turns'.state.store.workers.get? worker.name =
      turns.state.store.workers.get? worker.name ∧
        turns'.state.container? worker = turns.state.container? worker :=
    fun worker hw => h'.others worker.name fun other hother =>
      (distinct worker hw other hother).symm
  refine ⟨h'.jobs.trans h.jobs, fun worker hworker => ?_, fun worker hworker => ?_,
    fun name hname => ?_, ?_, ?_⟩
  · rcases List.mem_append.mp hworker with hfirst | hrest
    · exact (hkept worker hfirst).1.trans (h.record worker hfirst)
    · have hsettle : turns.state.settle worker = s.settle worker := by
        rw [Setting.settle, Setting.settle, hspared worker hrest]
      exact (h'.record worker hrest).trans (congrArg some hsettle)
  · rcases List.mem_append.mp hworker with hfirst | hrest
    · exact (hkept worker hfirst).2.trans (h.container worker hfirst)
    · exact (h'.container worker hrest).trans (congrArg _ (hspared worker hrest))
  · obtain ⟨hrecord, hcontainer⟩ := h.others name fun w hw => hname w (List.mem_append_left _ hw)
    obtain ⟨hrecord', hcontainer'⟩ := h'.others name fun w hw =>
      hname w (List.mem_append_right _ hw)
    exact ⟨hrecord'.trans hrecord, hcontainer'.trans hcontainer⟩
  · have hawaits : rest.filter turns.state.awaits = rest.filter s.awaits :=
      List.filter_congr fun worker hworker => by
        rw [Setting.awaits, Setting.awaits, hspared worker hworker]
    rw [launches_append, h.launches, h'.launches, hawaits, List.filter_append, List.map_append]
  · have hstirs : rest.filter turns.state.stirs = rest.filter s.stirs :=
      List.filter_congr fun worker hworker => by
        rw [Setting.stirs, Setting.stirs, hspared worker hworker]
    rw [told_append, h.told, h'.told, hstirs, List.filter_append, List.map_append]

/-- All workers have had their turns, in the order of the list. -/
theorem syncWorkers_attended (clock : Instant)
    (found : ∀ worker ∈ workers, s.store.workers.get? worker.name = some worker)
    (named : ∀ worker ∈ workers, passable worker.name)
    (ranged : ∀ worker ∈ workers, ∀ state, s.container? worker = some state → state.Ranged)
    (distinct : workers.Pairwise fun a b => a.name ≠ b.name) :
    Attended s workers ((syncWorkers workers).conduct (Setting.answer clock) s) := by
  induction workers generalizing s with
  | nil =>
    exact ⟨rfl, nofun, nofun, fun _ _ => ⟨rfl, rfl⟩, rfl, rfl⟩
  | cons worker workers ih =>
    obtain ⟨hne, hdistinct⟩ := List.pairwise_cons.mp distinct
    obtain ⟨hfound, hfounds⟩ := List.forall_mem_cons.mp found
    obtain ⟨hnamed, hnameds⟩ := List.forall_mem_cons.mp named
    obtain ⟨hranged, hrangeds⟩ := List.forall_mem_cons.mp ranged
    have hturn := syncWorker_attended clock hfound hnamed hranged
    -- the turn of the first worker leaves the others as they were
    have hspared : ∀ other ∈ workers, _ := fun other hother =>
      hturn.others other.name (List.forall_mem_singleton.mpr (hne other hother))
    have hrest := ih (fun other hother => (hspared other hother).1.trans (hfounds other hother))
      hnameds (fun other hother state hstate =>
        hrangeds other hother state ((hspared other hother).2.symm.trans hstate)) hdistinct
    rw [syncWorkers, Script.conduct_bind]
    exact hturn.append hrest (List.forall_mem_singleton.mpr hne)

/-! ## A cycle -/

/-- What comes of a removal. -/
theorem answer_remove (clock : Instant) (name : String) (s : Setting) :
    (Setting.answer clock (.host (Podman.removeArguments name)) s).2 =
      ⟨s.store, if passable name then s.containers.erase name else s.containers⟩ := by
  have htakes := Rehearsal.Host.takes_removeArguments name
  split
  · next hname =>
    rw [Setting.answer_taken clock s (htakes.trans hname)]
    rfl
  · next hname =>
    rw [Setting.answer_not_taken clock s (htakes ▸ hname)]

/-- What has come of removals. -/
theorem removeContainers_conduct (clock : Instant) (names : List String) (s : Setting) :
    let removals := (removeContainers names).conduct (Setting.answer clock) s
    removals.state.store = s.store ∧
      (∀ name, removals.state.containers.get? name =
        if name ∈ names ∧ passable name then none else s.containers.get? name) ∧
      launches removals.log = [] ∧ told removals.log = [] := by
  induction names generalizing s with
  | nil => exact ⟨rfl, fun name => by simp [removeContainers, Script.conduct], rfl, rfl⟩
  | cons name names ih =>
    rw [removeContainers, Podman.remove_eq, onHost_ask_bind, Script.conduct]
    obtain ⟨hstore, hget, hlaunches, htold⟩ :=
      ih (Setting.answer clock (.host (Podman.removeArguments name)) s).2
    rw [answer_remove] at hstore hget
    refine ⟨by rw [answer_remove]; exact hstore, fun n => ?_, hlaunches, htold⟩
    rw [answer_remove, hget]
    by_cases hname : n = name
    · subst hname
      cases passable n <;> simp [Table.get?_erase]
    · cases passable name <;> simp [hname, Table.get?_erase, Ne.symm hname]

/-- A cycle goes through the turns of the listed workers, and then it removes containers: none that
belongs to a worker, and all others whose names can be told. -/
theorem cycle_conduct (s : Setting) (clock : Instant) :
    let turns := (syncWorkers (s.store.listWorkers none)).conduct (Setting.answer clock) s
    ∃ gone : List String,
      (∀ name ∈ gone, ∀ worker ∈ s.store.listWorkers none, worker.name ≠ name) ∧
      (∀ name, Rehearsal.Host.Solid name → turns.state.containers.contains name →
        (∀ worker ∈ s.store.listWorkers none, worker.name ≠ name) → name ∈ gone) ∧
      let removals := (removeContainers gone).conduct (Setting.answer clock) turns.state
      (s.cycle clock).result = .ok () ∧ (s.cycle clock).state = removals.state ∧
        launches (s.cycle clock).log = launches turns.log ++ launches removals.log ∧
        told (s.cycle clock).log = told turns.log ++ told removals.log := by
  intro turns
  obtain ⟨names, hlisted, hmem⟩ := (turns.state.host Podman.listArguments).listed_obey
  have hgone : ∀ name, name ∈ names.filter (fun name =>
      (s.store.listWorkers none).all fun w => w.name ≠ name) ↔
        name ∈ names ∧ ∀ worker ∈ s.store.listWorkers none, worker.name ≠ name := by
    intro name
    rw [List.mem_filter, List.all_eq_true]
    simp only [decide_eq_true_eq]
  refine ⟨_, fun name hname => ((hgone name).mp hname).2, fun name hsolid hthere hfree =>
    (hgone name).mpr ⟨hmem name hsolid hthere, hfree⟩, ?_⟩
  have hlist : (Setting.answer clock (.store (.listWorkers none)) s).1 =
      .ok (s.store.listWorkers none) := rfl
  have hsame : (Setting.answer clock (.store (.listWorkers none)) s).2 = s := rfl
  have hanswer := Setting.answer_taken clock turns.state Rehearsal.Host.takes_listArguments
  have htold : Podman.listed (Setting.answer clock (.host Podman.listArguments) turns.state).1 =
      .ok names := by rw [hanswer, hlisted]
  have hseen : (Setting.answer clock (.host Podman.listArguments) turns.state).2 = turns.state := by
    rw [hanswer]
    rfl
  rw [Setting.cycle, sync, StoreScript.listWorkers, onStore_call_bind, Script.conduct, hlist, hsame]
  dsimp only
  rw [Script.conduct_bind, Podman.listManaged_eq, onHost_ask_bind]
  dsimp only
  rw [Script.conduct, htold, hseen]
  dsimp only
  rw [Script.conduct_bind]
  refine ⟨rfl, rfl, ?_, ?_⟩
  · show launches ([_] ++ (turns.log ++ ([_] ++ (_ ++ [])))) = _
    rw [launches_append, launches_append, launches_append, List.append_nil]
    rfl
  · show told ([_] ++ (turns.log ++ ([_] ++ (_ ++ [])))) = _
    rw [told_append, told_append, told_append, List.append_nil]
    rfl

/-- The cycle is understood: the host can be told the names of workers, exit codes are such, and a
line can tell the name of a container that belongs to no worker. -/
structure Setting.Tame (s : Setting) : Prop where
  filed : s.store.Filed
  named : ∀ name, s.store.workers.contains name → passable name
  ranged : ∀ name state, s.containers.get? name = some state → state.Ranged
  solid : ∀ name, s.containers.contains name → s.store.workers.get? name = none →
    Rehearsal.Host.Solid name

/-- **What comes of a cycle.** -/
theorem sync_settled (tame : s.Tame) (clock : Instant) : Settled s (s.cycle clock) := by
  have hfound : ∀ worker ∈ s.store.listWorkers none,
      s.store.workers.get? worker.name = some worker :=
    fun worker hworker => tame.filed.mem_listWorkers.mp hworker
  have hturns := syncWorkers_attended (s := s) clock hfound
    (fun worker hworker => tame.named _ (Option.isSome_iff_exists.mpr ⟨_, hfound worker hworker⟩))
    (fun worker _ state hstate => tame.ranged _ state hstate)
    (tame.filed.listWorkers_ascending.imp fun h => String.ne_of_lt h)
  obtain ⟨gone, hspared, hgone, hresult, hstate, hlaunches, htold⟩ := cycle_conduct s clock
  obtain ⟨hstore, hget, hlaunches', htold'⟩ := removeContainers_conduct clock gone
    ((syncWorkers (s.store.listWorkers none)).conduct (Setting.answer clock) s).state
  have hfree : ∀ name, s.store.workers.get? name = none →
      ∀ worker ∈ s.store.listWorkers none, worker.name ≠ name := by
    rintro name hnone worker hworker rfl
    exact nomatch hnone.symm.trans (hfound worker hworker)
  have hlisted : ∀ name worker, s.store.workers.get? name = some worker →
      worker ∈ s.store.listWorkers none ∧ worker.name = name :=
    fun name worker hw =>
      ⟨MemoryStore.mem_listWorkers_none.mpr ⟨name, hw⟩, tame.filed name worker hw⟩
  refine ⟨hresult, ?_, fun name => ?_, fun name worker hrecord => ?_, fun name hrecord => ?_, ?_,
    ?_⟩
  · rw [hstate, hstore, hturns.jobs]
  · rw [hstate, hstore]
    cases hrecord : s.store.workers.get? name with
    | none => exact (hturns.others name (hfree name hrecord)).1.trans hrecord
    | some worker =>
      obtain ⟨hmem, rfl⟩ := hlisted name worker hrecord
      exact hturns.record worker hmem
  · obtain ⟨hmem, rfl⟩ := hlisted name worker hrecord
    rw [hstate, hget, if_neg fun hname => hspared _ hname.1 worker hmem rfl]
    exact hturns.container worker hmem
  · have hkept := (hturns.others name (hfree name hrecord)).2
    rw [hstate, hget, hkept]
    split
    · next hname => rw [if_pos hname.2]
    · next hname =>
      -- a container that is kept and could be removed would have a name that cannot be told
      split
      · next hpassable =>
        refine Option.not_isSome_iff_eq_none.mp fun hthere => hname ⟨?_, hpassable⟩
        refine hgone name (tame.solid name hthere hrecord) ?_ (hfree name hrecord)
        rw [Table.contains, hkept]
        exact hthere
      · rfl
  · rw [hlaunches, hlaunches', List.append_nil, hturns.launches]
  · rw [htold, htold', List.append_nil, hturns.told]

end JobOperator.Launcher
