import JobOperator.Container.Launcher
import JobOperator.Proofs.Transcript
import Mathlib.Data.List.Forall2

/-!
# The discipline of a cycle

What the launcher asks in a cycle, and when, whatever it is answered.

* `Podman.inspected`, `Podman.started`, `Podman.listed`: what the end of a command line says.
* `Launcher.Found`: the **grounds** on which a cycle finds that a worker is in a phase;
  `Launcher.Unmoved` is what it is told if it finds nothing.
* `Launcher.Grounds`: for each question, what a cycle has been told before it asks.
* `Launcher.Turn`, `Launcher.Cycle`: what is asked for the sake of one worker, and the transcript
  of a cycle that has come to its end.
* `Launcher.sync_grounded`: a cycle asks on these grounds, and comes to such an end. The proof has
  one lemma for each of the scripts that a cycle consists of.
-/

namespace JobOperator

namespace Podman

/-- The command line that asks for the state of a container. -/
def inspectArguments (container : String) : Invocation :=
  ["inspect", "--type", "container", container]

/-- The command line that removes a container. -/
def removeArguments (container : String) : Invocation := ["rm", "-f", container]

/-- The command line that lists the containers with the operator's label. -/
def listArguments : Invocation :=
  ["ps", "-a", "--filter", "label=" ++ Worker.managedLabel ++ "=true",
    "--format", "\x7b\x7b.Names\x7d\x7d"]

@[simp] theorem inspectArguments_inj {a b : String} :
    inspectArguments a = inspectArguments b ↔ a = b := by
  simp [inspectArguments]

@[simp] theorem inspect_ne_run {name : String} {worker : Worker} :
    inspectArguments name ≠ runArguments worker := by
  simp [inspectArguments, runArguments]

@[simp] theorem inspect_ne_list {name : String} : inspectArguments name ≠ listArguments := by
  simp [inspectArguments, listArguments]

@[simp] theorem inspect_ne_remove {name other : String} :
    inspectArguments name ≠ removeArguments other := by
  simp [inspectArguments, removeArguments]

/-- What the end of an inspection says of a container. -/
def inspected (container : String) : Outcome → Except Error (Option ContainerState)
  | .notExecuted => .error (.notExecuted "inspect")
  | .exited (some 0) stdout _ =>
    match ContainerState.ofInspection? stdout with
    | .ok state => .ok state
    | .error _ => .error .unreadable
  | .exited _ _ stderr =>
    if saysMissing (Utf8.decodeLossy stderr) then .ok none
    else .error (.notInspected container (Text.trim (Utf8.decodeLossy stderr)))

/-- What the end of a launch says. -/
def started (worker : Worker) : Outcome → Except Error Unit
  | .notExecuted => .error (.notExecuted "run")
  | .exited (some 0) _ _ => .ok ()
  | .exited code _ stderr =>
    if holds "already in use".toList (Utf8.decodeLossy stderr).toList then .ok ()
    else .error (.notStarted worker.name worker.spec.image code
      (Text.trim (Utf8.decodeLossy stderr)))

/-- What the end of a removal says. -/
def removed (container : String) : Outcome → Except Error Unit
  | .notExecuted => .error (.notExecuted "rm")
  | .exited (some 0) _ _ => .ok ()
  | .exited _ _ stderr =>
    if saysMissing (Utf8.decodeLossy stderr) then .ok ()
    else .error (.notRemoved container (Text.trim (Utf8.decodeLossy stderr)))

/-- What the end of a listing says. -/
def listed : Outcome → Except Error (List String)
  | .notExecuted => .error (.notExecuted "ps")
  | .exited (some 0) stdout _ =>
    .ok (((Text.split '\n' (Utf8.decodeLossy stdout)).map Text.trim).filter (· ≠ ""))
  | .exited _ _ stderr => .error (.notListed (Text.trim (Utf8.decodeLossy stderr)))

theorem inspect_eq (container : String) :
    inspect container =
      .ask (inspectArguments container) fun o => .done (inspected container o) := by
  refine congrArg (Script.ask _) (funext fun o => ?_)
  match o with
  | .notExecuted => rfl
  | .exited (some 0) stdout _ =>
    show (match ContainerState.ofInspection? stdout with
      | .ok state => (.done (.ok state) : HostScript (Except Error (Option ContainerState)))
      | .error _ => .done (.error .unreadable)) = .done (inspected container _)
    rw [inspected]
    cases ContainerState.ofInspection? stdout <;> rfl
  | .exited none _ _ | .exited (some (.ofNat (_ + 1))) _ _ | .exited (some (.negSucc _)) _ _ => rfl

theorem run_eq (worker : Worker) :
    run worker = .ask (runArguments worker) fun o => .done (started worker o) := by
  refine congrArg (Script.ask _) (funext fun o => ?_)
  match o with
  | .notExecuted | .exited (some 0) _ _ => rfl
  | .exited none _ _ | .exited (some (.ofNat (_ + 1))) _ _ | .exited (some (.negSucc _)) _ _ => rfl

theorem remove_eq (container : String) :
    remove container = .ask (removeArguments container) fun o => .done (removed container o) := by
  refine congrArg (Script.ask _) (funext fun o => ?_)
  match o with
  | .notExecuted | .exited (some 0) _ _ => rfl
  | .exited none _ _ | .exited (some (.ofNat (_ + 1))) _ _ | .exited (some (.negSucc _)) _ _ => rfl

theorem listManaged_eq : listManaged = .ask listArguments fun o => .done (listed o) := by
  refine congrArg (Script.ask _) (funext fun o => ?_)
  match o with
  | .notExecuted | .exited (some 0) _ _ => rfl
  | .exited none _ _ | .exited (some (.ofNat (_ + 1))) _ _ | .exited (some (.negSucc _)) _ _ => rfl

end Podman

namespace Launcher

/-- What a cycle has asked and was answered, oldest first. -/
abbrev SyncTranscript := List (Script.Exchange Ask Reply)

/-- A command line and how it ended. -/
abbrev command (arguments : Podman.Invocation) (o : Podman.Outcome) : Script.Exchange Ask Reply :=
  ⟨.host arguments, o⟩

/-- The cycle has listed the workers; that was the first thing it did. -/
def Lists (log : SyncTranscript) (workers : List Worker) : Prop :=
  log.head? = some ⟨.store (.listWorkers none), .ok workers⟩

/-- What is asked before a worker is found to be in a phase. -/
inductive Found (worker : Worker) : SyncTranscript → Worker.Phase → Prop where
  /-- its container has a state -/
  | state {o : Podman.Outcome} {state : ContainerState}
      (told : Podman.inspected worker.name o = .ok (some state)) :
      Found worker [command (Podman.inspectArguments worker.name) o] state.workerPhase
  /-- it was running, and there is no container -/
  | lost {o : Podman.Outcome} (told : Podman.inspected worker.name o = .ok none)
      (running : worker.phase = .running) :
      Found worker [command (Podman.inspectArguments worker.name) o] .failed
  /-- it was waiting for a container, which could not be started -/
  | refused {o o' : Podman.Outcome} {e : Podman.Error}
      (told : Podman.inspected worker.name o = .ok none) (pending : worker.phase = .pending)
      (launch : Podman.started worker o' = .error e) :
      Found worker [command (Podman.inspectArguments worker.name) o,
        command (Podman.runArguments worker) o'] .failed

/-- What is asked if nothing is found. -/
inductive Unmoved (worker : Worker) : SyncTranscript → Prop where
  /-- the inspection fails -/
  | unseen {o : Podman.Outcome} {e : Podman.Error}
      (told : Podman.inspected worker.name o = .error e) :
      Unmoved worker [command (Podman.inspectArguments worker.name) o]
  /-- it has finished, and its container is gone -/
  | ended {o : Podman.Outcome} (told : Podman.inspected worker.name o = .ok none)
      (finished : worker.phase.finished) :
      Unmoved worker [command (Podman.inspectArguments worker.name) o]
  /-- it was waiting for a container, which is started -/
  | launched {o o' : Podman.Outcome} (told : Podman.inspected worker.name o = .ok none)
      (pending : worker.phase = .pending) (launch : Podman.started worker o' = .ok ()) :
      Unmoved worker [command (Podman.inspectArguments worker.name) o,
        command (Podman.runArguments worker) o']

/-- What has been told before a question. -/
def Grounds (log : SyncTranscript) : Ask → Prop
  | .store (.listWorkers owner) => owner = none ∧ log = []
  | .store (.updateWorkerPhase name phase) => ∃ workers worker before asked, Lists log workers ∧
      worker ∈ workers ∧ log = before ++ asked ∧ Found worker asked phase ∧
      phase ≠ worker.phase ∧ name = worker.name
  | .store _ => False
  | .host arguments => ∃ workers, Lists log workers ∧
      ((∃ worker ∈ workers, arguments = Podman.inspectArguments worker.name) ∨
      (∃ worker ∈ workers, arguments = Podman.runArguments worker ∧ worker.phase = .pending ∧
        ∃ before o, log = before ++ [command (Podman.inspectArguments worker.name) o] ∧
          Podman.inspected worker.name o = .ok none) ∨
      arguments = Podman.listArguments ∨
      ∃ name o names, arguments = Podman.removeArguments name ∧
        command Podman.listArguments o ∈ log ∧ Podman.listed o = .ok names ∧ name ∈ names ∧
        ∀ worker ∈ workers, worker.name ≠ name)
  | .notify job => ∃ workers worker before phase written, Lists log workers ∧ worker ∈ workers ∧
      job = worker.owner.name ∧
      log = before ++ [⟨.store (.updateWorkerPhase worker.name phase), .ok written⟩]

/-- What is asked after a phase was written: if it was, the controller is told. -/
def notices (worker : Worker) : Except StoreError Worker → SyncTranscript
  | .ok _ => [⟨.notify worker.owner.name, ()⟩]
  | .error _ => []

/-- What is asked for the sake of one worker. -/
inductive Turn (worker : Worker) : SyncTranscript → Prop where
  | unmoved {asked : SyncTranscript} (h : Unmoved worker asked) : Turn worker asked
  /-- the worker is found in the phase that is recorded -/
  | same {asked : SyncTranscript} (found : Found worker asked worker.phase) : Turn worker asked
  | written {asked : SyncTranscript} {phase : Worker.Phase} (found : Found worker asked phase)
      (changed : phase ≠ worker.phase) (reply : Except StoreError Worker) :
      Turn worker (asked ++ ⟨.store (.updateWorkerPhase worker.name phase), reply⟩ ::
        notices worker reply)

/-- A cycle that has come to its end. -/
inductive Cycle : SyncTranscript → Except SyncError Unit → Prop where
  | workersNotListed (e : StoreError) :
      Cycle [⟨.store (.listWorkers none), .error e⟩] (.error (.workersNotListed e))
  | containersNotListed {workers : List Worker} {turns : List SyncTranscript} {o : Podman.Outcome}
      {e : Podman.Error} (each : List.Forall₂ Turn workers turns)
      (told : Podman.listed o = .error e) :
      Cycle (⟨.store (.listWorkers none), .ok workers⟩ ::
        (turns.flatten ++ [command Podman.listArguments o])) (.error (.containersNotListed e))
  | completed {workers : List Worker} {turns : List SyncTranscript} {o : Podman.Outcome}
      {names : List String} {removals : SyncTranscript} (each : List.Forall₂ Turn workers turns)
      (told : Podman.listed o = .ok names)
      (removes : removals.map (·.question) = (names.filter fun name =>
        workers.all fun w => w.name ≠ name).map fun name => .host (Podman.removeArguments name)) :
      Cycle (⟨.store (.listWorkers none), .ok workers⟩ ::
        (turns.flatten ++ command Podman.listArguments o :: removals)) (.ok ())

variable {log : SyncTranscript} {workers : List Worker} {worker : Worker}

theorem Lists.append (h : Lists log workers) (more : SyncTranscript) :
    Lists (log ++ more) workers := by
  rw [Lists] at h ⊢
  rw [List.head?_append, h]
  rfl

@[simp] theorem command_inj {a b : Podman.Invocation} {o o' : Podman.Outcome} :
    command a o = command b o' ↔ a = b ∧ o = o' := by
  simp [command]

/-- The first exchange of a transcript does not depend on how it goes on. -/
theorem Lists.of_append {more : SyncTranscript} {x : Script.Exchange Ask Reply}
    (h : Lists (log ++ more) workers) (hx : x ∈ log) : Lists log workers := by
  cases log with
  | nil => cases hx
  | cons first rest => exact h

/-! ## The scripts of a cycle -/

/-- A command line, and what follows from what its end says. -/
theorem onHost_ask_bind {α β : Type} (arguments : Podman.Invocation) (read : Podman.Outcome → α)
    (f : α → SyncScript β) :
    (onHost (.ask arguments fun o => .done (read o)) >>= f) =
      .ask (.host arguments) fun o => f (read o) := rfl

/-- A call to the store, and what follows from the answer. -/
theorem onStore_call_bind {β : Type} (call : StoreCall) (f : call.Answer → SyncScript β) :
    (onStore (StoreScript.call call) >>= f) = .ask (.store call) f := rfl

/-- What is known once a worker was looked at. -/
def Viewed (worker : Worker) (asked : SyncTranscript) : Option Worker.Phase → Prop
  | none => Unmoved worker asked
  | some phase => Found worker asked phase

theorem observedPhase_grounded (h : Lists log workers) (hmem : worker ∈ workers) :
    (observedPhase worker).Obeys Grounds (fun log' result =>
      ∃ asked, log' = log ++ asked ∧ Viewed worker asked result) log := by
  rw [observedPhase, Podman.inspect_eq, onHost_ask_bind]
  refine ⟨⟨workers, h, .inl ⟨worker, hmem, rfl⟩⟩, fun o => ?_⟩
  dsimp only
  cases htold : Podman.inspected worker.name o with
  | error e => exact ⟨_, rfl, .unseen htold⟩
  | ok found =>
    cases found with
    | some state => exact ⟨_, rfl, .state htold⟩
    | none =>
      cases hphase : worker.phase with
      | running => exact ⟨_, rfl, .lost htold hphase⟩
      | succeeded | failed => exact ⟨_, rfl, .ended htold (by rw [hphase]; rfl)⟩
      | pending =>
        dsimp only
        rw [Podman.run_eq, onHost_ask_bind]
        refine ⟨⟨workers, h.append _, .inr (.inl ⟨worker, hmem, rfl, hphase, log, o, rfl, htold⟩)⟩,
          fun o' => ?_⟩
        dsimp only
        have hlog : log ++ [command (Podman.inspectArguments worker.name) o] ++
            [command (Podman.runArguments worker) o'] =
            log ++ [command (Podman.inspectArguments worker.name) o,
              command (Podman.runArguments worker) o'] := List.append_assoc ..
        cases hlaunch : Podman.started worker o' with
        | ok _ => exact ⟨_, hlog, .launched htold hphase hlaunch⟩
        | error e => exact ⟨_, hlog, .refused htold hphase hlaunch⟩

theorem syncWorker_grounded (h : Lists log workers) (hmem : worker ∈ workers) :
    (syncWorker worker).Obeys Grounds (fun log' _ =>
      ∃ turn, log' = log ++ turn ∧ Turn worker turn) log := by
  refine (observedPhase_grounded h hmem).bind fun log' result => ?_
  rintro ⟨asked, rfl, hviewed⟩
  cases result with
  | none => exact ⟨asked, rfl, .unmoved hviewed⟩
  | some phase =>
    dsimp only
    split
    · next hsame =>
      subst hsame
      exact ⟨asked, rfl, .same hviewed⟩
    · next hchanged =>
      refine ⟨⟨workers, worker, log, asked, h.append asked, hmem, rfl, hviewed, hchanged, rfl⟩,
        fun reply => ?_⟩
      have hturn := Turn.written hviewed hchanged reply
      cases reply with
      | error e => exact ⟨_, List.append_assoc .., hturn⟩
      | ok written =>
        refine ⟨⟨workers, worker, _, phase, written, (h.append asked).append _, hmem, rfl, rfl⟩,
          fun _ => ⟨_, ?_, hturn⟩⟩
        simp [notices]

theorem syncWorkers_grounded {todo : List Worker} (h : Lists log workers) (hsub : todo ⊆ workers) :
    (syncWorkers todo).Obeys Grounds (fun log' _ =>
      ∃ turns, log' = log ++ turns.flatten ∧ List.Forall₂ Turn todo turns) log := by
  induction todo generalizing log with
  | nil => exact ⟨[], (List.append_nil log).symm, .nil⟩
  | cons worker todo ih =>
    obtain ⟨hmem, hrest⟩ := List.cons_subset.mp hsub
    refine (syncWorker_grounded h hmem).bind fun log' _ => ?_
    rintro ⟨turn, rfl, hturn⟩
    refine (ih (h.append turn) hrest).imp fun log' _ => ?_
    rintro ⟨turns, rfl, hturns⟩
    exact ⟨turn :: turns, by simp, .cons hturn hturns⟩

theorem removeContainers_grounded {names todo : List String} {o : Podman.Outcome}
    (h : Lists log workers) (hps : command Podman.listArguments o ∈ log)
    (htold : Podman.listed o = .ok names)
    (hnames : ∀ name ∈ todo, name ∈ names ∧ ∀ worker ∈ workers, worker.name ≠ name) :
    (removeContainers todo).Obeys Grounds (fun log' _ => ∃ removals, log' = log ++ removals ∧
      removals.map (·.question) = todo.map fun name =>
        .host (Podman.removeArguments name)) log := by
  induction todo generalizing log with
  | nil => exact ⟨[], (List.append_nil log).symm, rfl⟩
  | cons name todo ih =>
    obtain ⟨hname, hrest⟩ := List.forall_mem_cons.mp hnames
    rw [removeContainers, Podman.remove_eq, onHost_ask_bind]
    refine ⟨⟨workers, h, .inr (.inr (.inr ⟨name, o, names, rfl, hps, htold, hname⟩))⟩,
      fun o' => ?_⟩
    refine (ih (h.append _) (List.mem_append_left _ hps) hrest).imp fun log' _ => ?_
    rintro ⟨removals, rfl, hquestions⟩
    exact ⟨_, List.append_assoc .., by rw [List.singleton_append, List.map_cons, hquestions]; rfl⟩

/-- **Discipline of a cycle**: whatever it is answered, a cycle asks on the grounds that it has to
have, gives every worker its turn, and comes to one of three ends. -/
theorem sync_grounded : sync.Obeys Grounds Cycle [] := by
  rw [sync, StoreScript.listWorkers, onStore_call_bind]
  refine ⟨⟨rfl, rfl⟩, fun reply => ?_⟩
  cases reply with
  | error e => exact Cycle.workersNotListed e
  | ok workers =>
    have hlists : Lists ([] ++ [⟨.store (.listWorkers none), .ok workers⟩]) workers := rfl
    refine (syncWorkers_grounded hlists (List.Subset.refl _)).bind fun log' _ => ?_
    rintro ⟨turns, rfl, hturns⟩
    have hlists' := hlists.append turns.flatten
    rw [Podman.listManaged_eq, onHost_ask_bind]
    refine ⟨⟨workers, hlists', .inr (.inr (.inl rfl))⟩, fun o => ?_⟩
    dsimp only
    cases htold : Podman.listed o with
    | error e => exact Cycle.containersNotListed hturns htold
    | ok names =>
      refine (removeContainers_grounded (hlists'.append _)
        (List.mem_append_right _ (List.mem_singleton.mpr rfl)) htold fun name hname => ?_).bind ?_
      · obtain ⟨hmem, hfree⟩ := List.mem_filter.mp hname
        refine ⟨hmem, fun worker hworker => ?_⟩
        simpa using List.all_eq_true.mp hfree worker hworker
      · rintro log' _ ⟨removals, rfl, hquestions⟩
        have hdone := Cycle.completed hturns htold hquestions
        simpa using hdone

/-! ## All that can happen in a cycle -/

theorem Unmoved.leads {asked : SyncTranscript} (h : Unmoved worker asked) :
    (observedPhase worker).Leads asked (.done none) := by
  rw [observedPhase, Podman.inspect_eq, onHost_ask_bind]
  cases h with
  | unseen told =>
    refine .reply ?_
    rw [told]
    exact .start
  | ended told finished =>
    refine .reply ?_
    rw [told]
    cases hphase : worker.phase with
    | succeeded | failed => exact .start
    | pending | running =>
      rw [hphase] at finished
      cases finished
  | launched told pending launch =>
    refine .reply ?_
    rw [told, pending, Podman.run_eq]
    dsimp only
    rw [onHost_ask_bind]
    refine .reply ?_
    rw [launch]
    exact .start

theorem Found.leads {asked : SyncTranscript} {phase : Worker.Phase} (h : Found worker asked phase) :
    (observedPhase worker).Leads asked (.done (some phase)) := by
  rw [observedPhase, Podman.inspect_eq, onHost_ask_bind]
  cases h with
  | state told =>
    refine .reply ?_
    rw [told]
    exact .start
  | lost told running =>
    refine .reply ?_
    rw [told, running]
    exact .start
  | refused told pending launch =>
    refine .reply ?_
    rw [told, pending, Podman.run_eq]
    dsimp only
    rw [onHost_ask_bind]
    refine .reply ?_
    rw [launch]
    exact .start

theorem Turn.leads {turn : SyncTranscript} (h : Turn worker turn) :
    (syncWorker worker).Leads turn (.done ()) := by
  cases h with
  | unmoved h =>
    rw [← List.append_nil turn]
    exact h.leads.bind .start
  | same found =>
    rw [← List.append_nil turn]
    refine found.leads.bind ?_
    dsimp only
    rw [if_pos rfl]
    exact .start
  | written found changed reply =>
    refine found.leads.bind ?_
    dsimp only
    rw [if_neg changed, StoreScript.updateWorkerPhase, onStore_call_bind]
    refine .reply ?_
    cases reply with
    | ok _ => exact .reply .start
    | error _ => exact .start

theorem syncWorkers_leads {todo : List Worker} {turns : List SyncTranscript}
    (h : List.Forall₂ Turn todo turns) : (syncWorkers todo).Leads turns.flatten (.done ()) := by
  induction h with
  | nil => exact .start
  | cons turn _ ih => exact turn.leads.bind ih

theorem removeContainers_leads {todo : List String} {removals : SyncTranscript}
    (h : removals.map (·.question) = todo.map fun name => .host (Podman.removeArguments name)) :
    (removeContainers todo).Leads removals (.done ()) := by
  induction todo generalizing removals with
  | nil =>
    obtain rfl := List.map_eq_nil_iff.mp h
    exact .start
  | cons name todo ih =>
    obtain ⟨⟨question, o⟩, rest, rfl, hquestion, hrest⟩ := List.map_eq_cons_iff.mp h
    obtain rfl : question = .host (Podman.removeArguments name) := hquestion
    rw [removeContainers, Podman.remove_eq, onHost_ask_bind]
    exact .reply (ih hrest)

theorem Cycle.leads {result : Except SyncError Unit} (h : Cycle log result) :
    sync.Leads log (.done result) := by
  rw [sync, StoreScript.listWorkers, onStore_call_bind]
  cases h with
  | workersNotListed e => exact .reply .start
  | containersNotListed each told =>
    refine .reply ((syncWorkers_leads each).bind ?_)
    rw [Podman.listManaged_eq, onHost_ask_bind]
    refine .reply ?_
    rw [told]
    exact .start
  | @completed _ _ _ _ removals each told removes =>
    refine .reply ((syncWorkers_leads each).bind ?_)
    rw [Podman.listManaged_eq, onHost_ask_bind]
    refine .reply ?_
    rw [told, ← List.append_nil removals]
    exact (removeContainers_leads removes).bind .start

/-- **What can happen in a cycle** is described completely. -/
theorem sync_leads_done_iff {result : Except SyncError Unit} :
    sync.Leads log (.done result) ↔ Cycle log result :=
  ⟨fun h => sync_grounded.leads h, Cycle.leads⟩

end Launcher

end JobOperator
