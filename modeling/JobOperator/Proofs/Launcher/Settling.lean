import JobOperator.Proofs.Cluster.Clients
import JobOperator.Proofs.Worker.Name

/-!
# Two cycles are enough

An undisturbed cycle brings containers and records into step: a container that was there gives its
worker its phase, a worker that waits gets a container, a worker that was running without one has
failed, and containers without a worker go. What a cycle launches, the next one sees running. After
that there is nothing to do.

Who waits for a container gets one only if the host can be handed over the command line. A job can
be such that it cannot: with a NUL in it, or with circuits of 128 KiB. Its worker fails in the first
cycle.

* `Worker.passable_nameFor`: names of workers can always be handed over.
* `Launcher.InStep`, `Launcher.CatchesUp`, `Launcher.AtRest`: what the first cycle does, what the
  second one does, and what every other one does.
* `Launcher.Setting.Supplied`: nobody waits for a container, and no container is without its worker.
  Every cycle leaves it so (`Launcher.Settled.supplied`), and from then on containers stay.
* `Launcher.two_cycles_suffice`: the three of them, for every store that can come about.
-/

namespace JobOperator

/-- The name of a worker can be handed over, if its job was submitted through the interface. -/
theorem Worker.passable_nameFor {job : String} (h : Api.Nameable job) (attempt : UInt32) :
    Rehearsal.Host.passable (nameFor job attempt) := by
  have hdigits : (Nat.toDigits 10 attempt.toNat).length ≤ 10 :=
    (Nat.length_toDigits_le_iff (by decide) (by decide)).mpr
      (Nat.lt_of_lt_of_le attempt.toNat_lt (by decide))
  -- it is a name of the characters that names of jobs are of, and hardly longer than they are
  have hchars : ∀ c ∈ (nameFor job attempt).toList, Api.nameChar c = true := by
    intro c hc
    rw [toList_nameFor] at hc
    rcases List.mem_append.mp hc with hc | hdigit
    · rcases List.mem_append.mp hc with hjob | hmiddle
      · exact Api.nameChar_iff.mpr (h.chars c hjob)
      · have hall : "-worker-".toList.all Api.nameChar = true := by decide +kernel
        exact List.all_eq_true.mp hall c hmiddle
    · have hisDigit := Nat.isDigit_of_mem_toDigits (by decide) (by decide) hdigit
      simp only [Char.isDigit, Bool.and_eq_true, decide_eq_true_eq] at hisDigit
      exact Api.nameChar_iff.mpr (.inr (.inl hisDigit))
  have hlength : (nameFor job attempt).length ≤ 66 := by
    have hshort := h.short
    rw [← String.length_toList] at hshort ⊢
    have hmiddle : "-worker-".toList.length = 8 := by decide +kernel
    rw [toList_nameFor, List.length_append, List.length_append, hmiddle]
    omega
  have hnul : '\x00' ∉ (nameFor job attempt).toList := fun hnul => nomatch hchars _ hnul
  simp [Rehearsal.Host.passable, Rehearsal.Host.longestArgument, hnul,
    Api.utf8ByteSize_of_nameChar hchars]
  omega

namespace Launcher

open Rehearsal.Host (passable)

variable {s : Setting} {clock : Instant} {worker : Worker}
  {cycle first second : Conducted (Except SyncError Unit)}

/-! ## Cycle after cycle -/

theorem workerPhase_running : (⟨"running", 0⟩ : ContainerState).workerPhase = .running := by
  decide +kernel

/-- A container is due that was there, or one that runs. -/
theorem eq_of_dueContainer {container : Option ContainerState} {state : ContainerState}
    (h : dueContainer worker container = some state) :
    container = some state ∨ state = ⟨"running", 0⟩ := by
  cases container with
  | some old => exact .inl h
  | none =>
    rw [dueContainer] at h
    exact .inr (Option.some.inj (Option.ite_none_right_eq_some.mp h).2).symm

/-- The phase that was due is due again, unless a container was waited for. -/
theorem duePhase_settled (worker : Worker) (container : Option ContainerState) :
    duePhase { worker with phase := duePhase worker container } (dueContainer worker container) =
      if worker.phase = .pending ∧ container = none ∧ launchable worker then .running
      else duePhase worker container := by
  cases container with
  | some state => simp [dueContainer, duePhase]
  | none =>
    cases hphase : worker.phase <;> cases hlaunchable : launchable worker <;>
      simp [dueContainer, duePhase, hphase, hlaunchable, workerPhase_running]

namespace Settled

/-- Exit codes are such after a cycle, if they were. -/
theorem ranged (h : Settled s cycle) (ranged : ∀ name state, s.containers.get? name = some state →
    state.Ranged) (name : String) (state : ContainerState)
    (hstate : cycle.state.containers.get? name = some state) : state.Ranged := by
  cases hrecord : s.store.workers.get? name with
  | none =>
    rw [h.strays name hrecord] at hstate
    exact ranged name state (Option.ite_none_left_eq_some.mp hstate).2
  | some worker =>
    rw [h.containers name worker hrecord] at hstate
    rcases eq_of_dueContainer hstate with hold | rfl
    · exact ranged _ state hold
    · decide

/-- A container without a worker was there before. -/
theorem solid (h : Settled s cycle) (solid : ∀ name, s.containers.contains name →
    s.store.workers.get? name = none → Rehearsal.Host.Solid name) (name : String)
    (hthere : cycle.state.containers.contains name)
    (hnone : cycle.state.store.workers.get? name = none) : Rehearsal.Host.Solid name := by
  rw [h.records, Option.map_eq_none_iff] at hnone
  obtain ⟨state, hstate⟩ := Option.isSome_iff_exists.mp hthere
  rw [h.strays name hnone] at hstate
  have hold := (Option.ite_none_left_eq_some.mp hstate).2
  exact solid name (Option.isSome_iff_exists.mpr ⟨state, hold⟩) hnone

/-- The container of a worker, after a cycle. -/
theorem container_settle (h : Settled s cycle)
    (found : s.store.workers.get? worker.name = some worker) :
    cycle.state.container? (s.settle worker) = dueContainer worker (s.container? worker) := by
  exact h.containers worker.name worker found

/-- The next cycle stirs those who have got a container, and nobody else. -/
theorem stirs_settle (h : Settled s cycle)
    (found : s.store.workers.get? worker.name = some worker) :
    cycle.state.stirs (s.settle worker) ↔
      worker.phase = .pending ∧ s.container? worker = none ∧ launchable worker := by
  rw [Setting.stirs_iff, h.container_settle found, Setting.settle, duePhase_settled]
  split
  · next hwaits =>
    obtain ⟨hpending, hnone, hlaunchable⟩ := hwaits
    simp [hpending, hnone, hlaunchable, duePhase]
  · next hwaits => exact iff_of_false (fun hstirs => hstirs rfl) hwaits

/-- After a cycle nobody waits for a container. -/
theorem not_awaits_settle (h : Settled s cycle)
    (found : s.store.workers.get? worker.name = some worker) :
    ¬ cycle.state.awaits (s.settle worker) := by
  rw [Setting.awaits_iff, h.container_settle found]
  rintro ⟨hpending, hnone⟩
  cases hcontainer : s.container? worker with
  | some state => simp [hcontainer, dueContainer] at hnone
  | none =>
    rw [Setting.settle, hcontainer] at hpending
    rw [hcontainer] at hnone
    cases hphase : worker.phase <;> cases hlaunchable : launchable worker <;>
      simp [dueContainer, duePhase, hphase, hlaunchable] at hpending hnone

/-- The list is the same, but for the phases. -/
theorem listWorkers (h : Settled s cycle) :
    cycle.state.store.listWorkers none = (s.store.listWorkers none).map s.settle := by
  have hworkers : cycle.state.store.workers = s.store.workers.mapped s.settle :=
    Table.ext fun name => by rw [h.records, Table.get?_mapped]
  rw [MemoryStore.listWorkers_none, MemoryStore.listWorkers_none, hworkers, Table.values_mapped]

end Settled

/-- Nobody waits for a container, and every container that can be removed belongs to a worker. -/
structure Setting.Supplied (s : Setting) : Prop where
  nobody_waits : ∀ worker ∈ s.store.listWorkers none, ¬ s.awaits worker
  owned : ∀ name, s.store.workers.get? name = none → passable name →
    s.containers.get? name = none

namespace Settled

theorem supplied (h : Settled s cycle) (filed : s.store.Filed) : cycle.state.Supplied where
  nobody_waits := by
    intro worker hworker
    rw [h.listWorkers] at hworker
    obtain ⟨old, hold, rfl⟩ := List.mem_map.mp hworker
    exact h.not_awaits_settle (filed.mem_listWorkers.mp hold)
  owned := by
    intro name hnone hname
    rw [h.records, Option.map_eq_none_iff] at hnone
    rw [h.strays name hnone, if_pos hname]

/-- Where nobody waits, nothing is launched. -/
theorem launches_eq_nil (h : Settled s cycle) (supplied : s.Supplied) :
    Launcher.launches cycle.log = [] := by
  rw [h.launches, List.filter_eq_nil_iff.mpr supplied.nobody_waits, List.map_nil]

/-- Where nobody waits, and what could be removed has been removed, containers stay. -/
theorem containers_eq (h : Settled s cycle) (filed : s.store.Filed) (supplied : s.Supplied) :
    cycle.state.containers = s.containers := by
  refine Table.ext fun name => ?_
  cases hrecord : s.store.workers.get? name with
  | none =>
    rw [h.strays name hrecord]
    split
    · next hname => exact (supplied.owned name hrecord hname).symm
    · rfl
  | some worker =>
    have hmem := MemoryStore.mem_listWorkers_none.mpr ⟨name, hrecord⟩
    have hwaits := supplied.nobody_waits worker hmem
    obtain rfl := filed name worker hrecord
    rw [h.containers _ worker hrecord]
    show dueContainer worker (s.container? worker) = s.container? worker
    cases hcontainer : s.container? worker with
    | some state => rfl
    | none =>
      rw [Setting.awaits_iff, hcontainer] at hwaits
      exact if_neg fun hdue => hwaits ⟨hdue.1, rfl⟩

/-- Where nobody is stirred, all workers stay as well, and there is nothing to tell. -/
theorem state_eq (h : Settled s cycle) (filed : s.store.Filed) (supplied : s.Supplied)
    (calm : ∀ worker ∈ s.store.listWorkers none, ¬ s.stirs worker) :
    cycle.state = s ∧ Launcher.told cycle.log = [] := by
  have hworkers : cycle.state.store.workers = s.store.workers := by
    refine Table.ext fun name => ?_
    rw [h.records]
    cases hrecord : s.store.workers.get? name with
    | none => rfl
    | some worker =>
      have hmem := MemoryStore.mem_listWorkers_none.mpr ⟨name, hrecord⟩
      exact congrArg some (settle_of_not_stirs (calm worker hmem))
  have hstore : cycle.state.store = s.store := by
    show MemoryStore.mk cycle.state.store.jobs cycle.state.store.workers = ⟨_, _⟩
    rw [h.jobs, hworkers]
  refine ⟨?_, ?_⟩
  · show Setting.mk cycle.state.store cycle.state.containers = ⟨_, _⟩
    rw [hstore, h.containers_eq filed supplied]
  · rw [h.told, List.filter_eq_nil_iff.mpr calm, List.map_nil]

end Settled

/-! ## The first cycle, the second one, and all others -/

/-- What a first cycle does. -/
structure InStep (s : Setting) (cycle : Conducted (Except SyncError Unit)) : Prop where
  succeeds : cycle.result = .ok ()
  jobs : cycle.state.store.jobs = s.store.jobs
  /-- no worker appears -/
  absent : ∀ name, s.store.workers.get? name = none →
    cycle.state.store.workers.get? name = none
  /-- a worker whose container was there has the phase that the container tells, and the container
  stays -/
  seen : ∀ name worker state, s.store.workers.get? name = some worker →
    s.containers.get? name = some state →
    ∃ phase, state.Tells phase ∧
      cycle.state.store.workers.get? name = some { worker with phase } ∧
      cycle.state.containers.get? name = some state
  /-- a worker that waits, and whose command line can be handed over, still waits, and its container
  runs -/
  launched : ∀ name worker, s.store.workers.get? name = some worker → worker.phase = .pending →
    s.containers.get? name = none → launchable worker →
    cycle.state.store.workers.get? name = some worker ∧
      cycle.state.containers.get? name = some ⟨"running", 0⟩
  /-- a worker that waits, and whose command line cannot be handed over, has failed -/
  refused : ∀ name worker, s.store.workers.get? name = some worker → worker.phase = .pending →
    s.containers.get? name = none → ¬ launchable worker →
    cycle.state.store.workers.get? name = some { worker with phase := .failed } ∧
      cycle.state.containers.get? name = none
  /-- a worker that has lost its container has failed -/
  lost : ∀ name worker, s.store.workers.get? name = some worker → worker.phase = .running →
    s.containers.get? name = none →
    cycle.state.store.workers.get? name = some { worker with phase := .failed } ∧
      cycle.state.containers.get? name = none
  /-- a worker that has finished needs no container -/
  finished : ∀ name worker, s.store.workers.get? name = some worker → worker.phase.finished →
    s.containers.get? name = none →
    cycle.state.store.workers.get? name = some worker ∧
      cycle.state.containers.get? name = none
  /-- a container without a worker is removed, if its name can be handed over -/
  removed : ∀ name, s.store.workers.get? name = none →
    cycle.state.containers.get? name = if passable name then none else s.containers.get? name
  /-- a container is asked for once for everyone who has none and waits -/
  launches : launches cycle.log = ((s.store.listWorkers none).filter fun worker =>
    worker.phase = .pending ∧ s.containers.get? worker.name = none).map Podman.runArguments
  /-- the controller is told once of everyone whose phase has changed -/
  told : told cycle.log = ((s.store.listWorkers none).filter fun worker =>
    (cycle.state.store.workers.get? worker.name).any (·.phase ≠ worker.phase)).map (·.owner.name)
  /-- in the order of their names -/
  ascending : (s.store.listWorkers none).Pairwise fun a b => a.name < b.name

/-- What the cycle after the first one does. -/
structure CatchesUp (s : Setting) (first second : Conducted (Except SyncError Unit)) : Prop where
  succeeds : second.result = .ok ()
  jobs : second.state.store.jobs = first.state.store.jobs
  /-- who has got a container is running -/
  running : ∀ name worker, s.store.workers.get? name = some worker → worker.phase = .pending →
    s.containers.get? name = none → launchable worker →
    second.state.store.workers.get? name = some { worker with phase := .running }
  /-- all others are as they were -/
  others : ∀ name, (∀ worker, s.store.workers.get? name = some worker →
      ¬ (worker.phase = .pending ∧ s.containers.get? name = none ∧ launchable worker)) →
    second.state.store.workers.get? name = first.state.store.workers.get? name
  containers : second.state.containers = first.state.containers
  launches : launches second.log = []
  told : told second.log = ((s.store.listWorkers none).filter fun worker =>
    worker.phase = .pending ∧ s.containers.get? worker.name = none ∧ launchable worker).map
      (·.owner.name)

/-- What any cycle does in a setting that has come to rest. -/
structure AtRest (s : Setting) (clock : Instant) : Prop where
  succeeds : (s.cycle clock).result = .ok ()
  state : (s.cycle clock).state = s
  launches : launches (s.cycle clock).log = []
  told : told (s.cycle clock).log = []

theorem Settled.inStep (h : Settled s cycle) (filed : s.store.Filed) : InStep s cycle := by
  have hboth : ∀ name worker, s.store.workers.get? name = some worker →
      cycle.state.store.workers.get? name =
        some { worker with phase := duePhase worker (s.containers.get? name) } ∧
      cycle.state.containers.get? name = dueContainer worker (s.containers.get? name) := by
    intro name worker hworker
    obtain rfl := filed name worker hworker
    rw [h.records, h.containers _ worker hworker, hworker]
    exact ⟨rfl, rfl⟩
  refine ⟨h.result, h.jobs, fun name hnone => ?_, fun name worker state hworker hstate => ?_,
    fun name worker hworker hphase hnone hlaunchable => ?_,
    fun name worker hworker hphase hnone hlaunchable => ?_,
    fun name worker hworker hphase hnone => ?_, fun name worker hworker hphase hnone => ?_,
    h.strays, h.launches, ?_, filed.listWorkers_ascending⟩
  · rw [h.records, hnone, Option.map_none]
  · have hdue := hboth name worker hworker
    rw [hstate] at hdue
    exact ⟨state.workerPhase, ContainerState.tells_iff.mpr rfl, hdue⟩
  · have hdue := hboth name worker hworker
    have hkept : duePhase worker none = worker.phase := by simp [duePhase, hphase, hlaunchable]
    rwa [hnone, hkept, dueContainer, if_pos ⟨hphase, hlaunchable⟩] at hdue
  · have hdue := hboth name worker hworker
    rw [hnone] at hdue
    simpa [duePhase, dueContainer, hphase, hlaunchable] using hdue
  · have hdue := hboth name worker hworker
    rw [hnone] at hdue
    simpa [duePhase, dueContainer, hphase] using hdue
  · have hdue := hboth name worker hworker
    have hended : worker.phase ≠ .pending ∧ duePhase worker none = worker.phase := by
      cases hended : worker.phase <;> simp [duePhase, Worker.Phase.finished, hended] at hphase ⊢
    rwa [hnone, hended.2, dueContainer, if_neg fun hdue => hended.1 hdue.1] at hdue
  · rw [h.told]
    refine congrArg _ (List.filter_congr fun worker hworker => ?_)
    rw [(hboth _ worker (filed.mem_listWorkers.mp hworker)).1]
    rfl

theorem Settled.catchesUp (h : Settled s first) (h' : Settled first.state second)
    (filed : s.store.Filed) (filed' : first.state.store.Filed) : CatchesUp s first second := by
  have hsupplied : first.state.Supplied := h.supplied filed
  have hphase : ∀ name worker, s.store.workers.get? name = some worker →
      second.state.store.workers.get? name = some { worker with
        phase := if worker.phase = .pending ∧ s.containers.get? name = none ∧ launchable worker
          then .running else (s.settle worker).phase } := by
    intro name worker hworker
    obtain rfl := filed name worker hworker
    rw [h'.records, h.records, hworker, Option.map_some, Option.map_some, Setting.settle,
      h.container_settle hworker, Setting.settle, duePhase_settled]
    rfl
  refine ⟨h'.result, h'.jobs, fun name worker hworker hpending hnone hlaunchable => ?_,
    fun name hothers => ?_, h'.containers_eq filed' hsupplied, h'.launches_eq_nil hsupplied, ?_⟩
  · rw [hphase name worker hworker, if_pos ⟨hpending, hnone, hlaunchable⟩]
  · cases hrecord : s.store.workers.get? name with
    | none => rw [h'.records, h.records, hrecord, Option.map_none, Option.map_none]
    | some worker =>
      rw [hphase name worker hrecord, if_neg (hothers worker hrecord), h.records, hrecord]
      rfl
  · rw [h'.told, h.listWorkers, List.filter_map, List.map_map]
    refine congrArg _ (List.filter_congr fun worker hworker => ?_)
    exact Bool.eq_iff_iff.mpr ((h.stirs_settle (filed.mem_listWorkers.mp hworker)).trans
      decide_eq_true_iff.symm)

/-- After two cycles nothing is left to do. -/
theorem Settled.atRest (h : Settled s first) (h' : Settled first.state second)
    (filed : s.store.Filed) (filed' : first.state.store.Filed) (tame : second.state.Tame)
    (clock : Instant) : AtRest second.state clock := by
  have hsupplied : second.state.Supplied := h'.supplied filed'
  have hcalm : ∀ worker ∈ second.state.store.listWorkers none, ¬ second.state.stirs worker := by
    intro worker hworker
    rw [h'.listWorkers] at hworker
    obtain ⟨old, hold, rfl⟩ := List.mem_map.mp hworker
    rw [h'.stirs_settle (filed'.mem_listWorkers.mp hold)]
    rintro ⟨hpending, hnone, -⟩
    exact (h.supplied filed).nobody_waits old hold (Setting.awaits_iff.mpr ⟨hpending, hnone⟩)
  have hthird := sync_settled tame clock
  obtain ⟨hstate, htold⟩ := hthird.state_eq tame.filed hsupplied hcalm
  exact ⟨hthird.result, hstate, hthird.launches_eq_nil hsupplied, htold⟩

/-- A setting that has come to rest stays as it is, cycle after cycle. -/
theorem syncRepeatedly_atRest (h : AtRest s clock) (count : Nat) :
    let cycles := (syncRepeatedly count).conduct (Setting.answer clock) s
    cycles.state = s ∧ launches cycles.log = [] ∧ told cycles.log = [] := by
  induction count with
  | zero => exact ⟨rfl, rfl, rfl⟩
  | succ count ih =>
    obtain ⟨hstate, hlaunches, htold⟩ := ih
    have hfirst : (sync.conduct (Setting.answer clock) s).state = s := h.state
    rw [syncRepeatedly, Script.conduct_bind]
    dsimp only
    rw [hfirst, launches_append, told_append, hlaunches, htold, List.append_nil, List.append_nil]
    exact ⟨hstate, h.launches, h.told⟩

/-- Cycles are understood in every store of a run in which jobs are submitted through the
interface. -/
theorem tame_of_run {t : Worker.Template} {c : Cluster} (h : Cluster.Run t Cluster.Event.accepted c)
    (hs : s.store = c.store)
    (ranged : ∀ name state, s.containers.get? name = some state → state.Ranged)
    (solid : ∀ name, s.containers.contains name → s.store.workers.get? name = none →
      Rehearsal.Host.Solid name) : s.Tame where
  filed := hs ▸ h.sound.consistent_now.filed
  named := by
    rw [hs]
    intro name hthere
    obtain ⟨worker, hworker⟩ := Option.isSome_iff_exists.mp hthere
    obtain ⟨-, ⟨attempt, rfl⟩, job, hjob, -⟩ := h.sound.consistent_now.placed name worker hworker
    have hproper := h.proper (.of_store hjob)
    rw [h.sound.consistent_now.named _ job hjob] at hproper
    exact Worker.passable_nameFor hproper.name attempt
  ranged := ranged
  solid := solid

/-- **Two cycles are enough**, for every store that there can be and all containers whose names can
be told by a line. The first cycle brings containers and records into step, the second one finds
running what the first one has launched, and however many follow, they change nothing, launch
nothing and have nothing to tell. -/
theorem two_cycles_suffice {t : Worker.Template} {c : Cluster}
    (h : Cluster.Run t Cluster.Event.accepted c) (containers : Table ContainerState)
    (named : ∀ name, containers.contains name → Rehearsal.Host.Solid name)
    (ranged : ∀ name state, containers.get? name = some state → state.Ranged)
    (clock clock' : Instant) :
    let s : Setting := ⟨c.store, containers⟩
    let first := s.cycle clock
    let second := first.state.cycle clock'
    InStep s first ∧ CatchesUp s first second ∧ ∀ later count,
      let further := (syncRepeatedly count).conduct (Setting.answer later) second.state
      further.state = second.state ∧ launches further.log = [] ∧ told further.log = [] := by
  intro s first second
  have htame : s.Tame := tame_of_run h rfl ranged fun name hthere _ => named name hthere
  have hfirst : Settled s first := sync_settled htame clock
  -- what a cycle leaves behind is a store of a run, so the next one is understood as well
  obtain ⟨c', hrun', hstore'⟩ := h.cycle containers clock
  have htame' : first.state.Tame :=
    tame_of_run hrun' hstore'.symm (hfirst.ranged htame.ranged) (hfirst.solid htame.solid)
  have hsecond : Settled first.state second := sync_settled htame' clock'
  obtain ⟨c'', hrun'', hstore''⟩ := hrun'.conduct clock' hstore'.symm sync_obeys
  have htame'' : second.state.Tame :=
    tame_of_run hrun'' hstore''.symm (hsecond.ranged htame'.ranged) (hsecond.solid htame'.solid)
  refine ⟨hfirst.inStep htame.filed, hfirst.catchesUp hsecond htame.filed htame'.filed,
    fun later count => ?_⟩
  exact syncRepeatedly_atRest
    (hfirst.atRest hsecond htame.filed htame'.filed htame'' later) count

/-- A job is looked at twice, and then there is a worker that waits. -/
def awaited : List Cluster.Event :=
  [.submit Cluster.bell (.ofNat 1) (.ofSecond 0), .start "bell" (.ofSecond 1) {}] ++
    Cluster.turns 0 2 ++ [.start "bell" (.ofSecond 2) {}] ++ Cluster.turns 1 4

/-- A container that belongs to nobody. -/
def strayed : Table ContainerState := (∅ : Table _).insert "stray" ⟨"Exited", -1⟩

/-- The container goes, the worker gets one and is then found running, and of this the controller is
told. -/
theorem two_cycles_suffice_stray : ∃ c, Cluster.Run {} Cluster.Event.accepted c ∧
    (∀ name, strayed.contains name → Rehearsal.Host.Solid name) ∧
    (∀ name state, strayed.get? name = some state → state.Ranged) ∧
    ∃ worker, c.store.workers.get? "bell-worker-0" = some worker ∧ worker.phase = .pending ∧
      let first := (⟨c.store, strayed⟩ : Setting).cycle (.ofSecond 3)
      let second := first.state.cycle (.ofSecond 4)
      first.state.containers.get? "stray" = none ∧
      first.state.containers.get? "bell-worker-0" = some ⟨"running", 0⟩ ∧
      second.state.store.workers.get? "bell-worker-0" = some { worker with phase := .running } ∧
      told second.log = ["bell"] ∧
      told ((syncRepeatedly 5).conduct (Setting.answer (.ofSecond 5)) second.state).log = [] := by
  have hrun : Cluster.Run {} Cluster.Event.accepted (Cluster.outcome {} awaited) :=
    .outcome (by decide +kernel)
  have honly : ∀ name state, strayed.get? name = some state →
      name = "stray" ∧ state = ⟨"Exited", -1⟩ := by
    intro name state hstate
    rw [strayed, Table.get?_insert] at hstate
    obtain ⟨rfl, hsome⟩ := Option.ite_some_none_eq_some.mp hstate
    exact ⟨rfl, hsome.symm⟩
  have hnamed : ∀ name, strayed.contains name → Rehearsal.Host.Solid name := by
    intro name hthere
    obtain ⟨state, hstate⟩ := Option.isSome_iff_exists.mp hthere
    obtain ⟨rfl, -⟩ := honly name state hstate
    have hall : "stray".toList.all (Text.isBlank · = false) = true := by decide +kernel
    exact ⟨by decide, fun c hc => of_decide_eq_true (List.all_eq_true.mp hall c hc)⟩
  have hranged : ∀ name state, strayed.get? name = some state → state.Ranged := by
    intro name state hstate
    obtain ⟨-, rfl⟩ := honly name state hstate
    decide
  have hwaits : ((Cluster.outcome {} awaited).store.workers.get? "bell-worker-0").any
      (fun worker => worker.phase = .pending ∧ launchable worker) := by decide +kernel
  have hstray : (Cluster.outcome {} awaited).store.workers.get? "stray" = none := by decide +kernel
  obtain ⟨worker, hworker, hwaiting⟩ := (Option.any_eq_true _ _).mp hwaits
  obtain ⟨hpending, hlaunchable⟩ := of_decide_eq_true hwaiting
  obtain ⟨hfirst, hsecond, hlater⟩ :=
    two_cycles_suffice hrun strayed hnamed hranged (.ofSecond 3) (.ofSecond 4)
  obtain ⟨-, hlaunched⟩ := hfirst.launched "bell-worker-0" worker hworker hpending rfl hlaunchable
  have hrunning := hsecond.running "bell-worker-0" worker hworker hpending rfl hlaunchable
  have hgone : passable "stray" := by decide +kernel
  refine ⟨_, hrun, hnamed, hranged, worker, hworker, hpending,
    (hfirst.removed _ hstray).trans (if_pos hgone), hlaunched, hrunning, hsecond.told.trans ?_,
    (hlater (.ofSecond 5) 5).2.2⟩
  decide +kernel

/-- A request for a job whose circuits are a NUL. -/
def nulRequest : Api.Request where
  method := "POST"
  path := "/api/jobs"
  contentType := some "application/json"
  body := Utf8.encode ("\x7b\"name\":\"bell\",\"spec\":\x7b\"workerImage\":\"aer:0.15\"," ++
    "\"circuits\":\"\\u0000\"\x7d\x7d")

/-- What it asks for. -/
def nulSubmission : Job.Submission where
  name := "bell"
  spec := { workerImage := "aer:0.15", circuits := "\x00" }

/-- The job is looked at twice, and then there is a worker that waits. -/
def awaitedInVain : List Cluster.Event :=
  .submit nulSubmission (.ofNat 1) (.ofSecond 0) :: awaited.tail

/-- The request is granted. But the worker that waits gets no container: the host cannot be handed
over the circuits, and the cycle leaves the worker failed. -/
theorem waiting_worker_fails :
    let granted := (Api.handle nulRequest ⟨.ofNat 1, .ofSecond 0⟩).account (.ofSecond 0) {}
    granted.result.status = 201 ∧
    granted.store = (Cluster.outcome {} (awaitedInVain.take 1)).store ∧
    ∃ c worker, Cluster.Run {} Cluster.Event.accepted c ∧
      c = Cluster.outcome {} awaitedInVain ∧
      c.store.workers.get? "bell-worker-0" = some worker ∧ worker.phase = .pending ∧
      let first := (⟨c.store, ∅⟩ : Setting).cycle (.ofSecond 3)
      first.result = .ok () ∧
      first.state.store.workers.get? "bell-worker-0" = some { worker with phase := .failed } ∧
      first.state.containers.get? "bell-worker-0" = none := by
  have hrun : Cluster.Run {} Cluster.Event.accepted (Cluster.outcome {} awaitedInVain) :=
    .outcome (by decide +kernel)
  have hrecord : (Cluster.outcome {} awaitedInVain).store.workers.get? "bell-worker-0" =
      some (((Cluster.outcome {} awaitedInVain).store.workers.get? "bell-worker-0").get rfl) := rfl
  exact ⟨by decide +kernel, by decide +kernel, _, _, hrun, rfl, hrecord, by decide +kernel,
    by decide +kernel, by decide +kernel, by decide +kernel⟩

end Launcher

end JobOperator
