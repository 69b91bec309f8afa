import JobOperator.Proofs.Cluster.Step
import JobOperator.Proofs.Launcher.Discipline
import JobOperator.Rehearsal.Host

/-!
# A cluster and its containers

Cycles of the launcher run beside everything that happens to a store: invocations of the
reconciler, and clients that submit and withdraw jobs. They also give command lines to a
container host. A container comes into being by a command line that runs one, and in no other way;
from then on it changes by itself.

* `Launcher.Container`: a container; it is remembered who has run it, how, and when.
* `Launcher.Round`: a cycle in progress, with the container that it was last told of.
* `Launcher.Site`: a cluster, the containers of a host, and the cycles there have been.
* `Site.Deed`: what a command line does. Nothing is said of when it does it, nor of what it is
  answered, except that what the host tells of the **state of a container** is true.
* `Site.next` makes an event happen; `Site.Run`: the sites that come about.

As in a cluster, nobody who runs sees what is remembered.
-/

namespace JobOperator.Launcher

/-- A container of the host. -/
structure Container where
  state : ContainerState
  /-- the cycle that has run it -/
  runner : Nat
  /-- the command line that has run it -/
  command : Podman.Invocation
  /-- how many stores there had been before the one of that time -/
  since : Nat
  deriving DecidableEq, Repr

/-- A cycle in progress. -/
structure Round where
  /-- what it has asked and was answered, oldest first -/
  log : SyncTranscript := []
  /-- what it has still to do -/
  rest : SyncScript (Except SyncError Unit) := sync
  /-- the container whose state the last command line has told -/
  sighted : Option Container := none

/-- A cycle that has not done anything yet. -/
def Round.begin : Round := {}

/-- The cycle goes on with an answer. -/
def Round.hear (round : Round) (q : Ask) (reply : Reply q)
    (rest : SyncScript (Except SyncError Unit)) : Round :=
  { round with log := round.log ++ [⟨q, reply⟩], rest }

/-- The phase that a cycle is about to write, and the name of the worker. -/
def Round.writes (round : Round) : Option (String × Worker.Phase) :=
  match round.rest with
  | .ask (.store (.updateWorkerPhase name phase)) _ => some (name, phase)
  | _ => none

/-- A store with everything over it, and a container host. -/
structure Site where
  cluster : Cluster := {}
  containers : Table Container := ∅
  /-- all cycles there have been, in the order of their beginning -/
  rounds : List Round := []

namespace Site

/-- What a command line does to the containers. -/
inductive Deed where
  | nothing
  /-- there is a new container, in this state -/
  | starts (state : ContainerState)
  | removes
  deriving DecidableEq, Repr

/-- What can happen. -/
inductive Event where
  /-- something happens to the store, or to an invocation of the reconciler -/
  | cluster (e : Cluster.Event)
  /-- a cycle begins -/
  | start
  /-- a cycle makes its next call to the store -/
  | call (round : Nat) (clock : Instant) (fate : Cluster.Fate)
  /-- a cycle gives its next command line to the host -/
  | execute (round : Nat) (o : Podman.Outcome) (deed : Deed)
  /-- a cycle tells the controller of a job -/
  | tell (round : Nat)
  /-- a container is in another state, or is gone -/
  | drift (container : String) (state : Option ContainerState)
  deriving DecidableEq, Repr

/-- The container that a command line is about, if it begins with this command. -/
def subject? (word : String) (arguments : Podman.Invocation) : Option String :=
  if arguments.head? = some word then Rehearsal.Host.container? arguments else none

/-- The container whose state a command line is told. -/
def sight (s : Site) (arguments : Podman.Invocation) (o : Podman.Outcome) : Option Container :=
  match subject? "inspect" arguments with
  | some name =>
    match Podman.inspected name o with
    | .ok (some _) => s.containers.get? name
    | _ => none
  | none => none

/-- If a command line is told the state of a container, this is its state. -/
def truthful (s : Site) (arguments : Podman.Invocation) (o : Podman.Outcome) : Bool :=
  match subject? "inspect" arguments with
  | some name =>
    match Podman.inspected name o with
    | .ok (some state) => (s.containers.get? name).any (·.state = state)
    | _ => true
  | none => true

/-- The containers after a deed of a command line, if it can do this. Two containers never share
a name. -/
def perform (s : Site) (i : Nat) (arguments : Podman.Invocation) : Deed → Option (Table Container)
  | .nothing => some s.containers
  | .starts state =>
    match subject? "run" arguments with
    | some name =>
      if s.containers.contains name then none
      else some (s.containers.insert name ⟨state, i, arguments, s.cluster.past.length⟩)
    | none => none
  | .removes => (subject? "rm" arguments).map s.containers.erase

/-- The site after an event, if it can happen. -/
def next (t : Worker.Template) (s : Site) : Event → Option Site
  | .cluster e => (s.cluster.next t e).map fun cluster => { s with cluster }
  | .start => some { s with rounds := s.rounds ++ [.begin] }
  | .call i clock fate =>
    match s.rounds[i]? with
    | some round =>
      match round.rest with
      | .ask (.store call) resume =>
        (s.cluster.meet clock call fate).map fun (reply, store) =>
          { s with
            cluster := s.cluster.become store
            rounds := s.rounds.set i (round.hear (.store call) reply (resume reply)) }
      | _ => none
    | none => none
  | .execute i o deed =>
    match s.rounds[i]? with
    | some round =>
      match round.rest with
      | .ask (.host arguments) resume =>
        if s.truthful arguments o then
          (s.perform i arguments deed).map fun containers =>
            { s with
              containers
              rounds := s.rounds.set i { round.hear (.host arguments) o (resume o) with
                sighted := s.sight arguments o } }
        else none
      | _ => none
    | none => none
  | .tell i =>
    match s.rounds[i]? with
    | some round =>
      match round.rest with
      | .ask (.notify job) resume =>
        some { s with rounds := s.rounds.set i (round.hear (.notify job) () (resume ())) }
      | _ => none
    | none => none
  | .drift name state =>
    (s.containers.get? name).map fun container =>
      { s with containers :=
          match state with
          | some state => s.containers.insert name { container with state }
          | none => s.containers.erase name }

/-- The sites that come about by allowed events. -/
inductive Run (t : Worker.Template) (allowed : Event → Prop) : Site → Prop where
  | start : Run t allowed {}
  | next {s s' : Site} {e : Event} (before : Run t allowed s) (ok : allowed e)
      (step : s.next t e = some s') : Run t allowed s'

/-- An event that needs nobody but clients, the reconciler, the launcher and the containers, and
no store that fails or is behind. -/
def Event.ordinary : Event → Prop
  | .cluster (.report ..) | .cluster (.lose ..) | .cluster (.cut ..) => False
  | .cluster e => e.smooth
  | .call _ _ fate => fate = .answered
  | _ => True

instance : (e : Event) → Decidable e.ordinary
  | .cluster (.report ..) | .cluster (.lose ..) | .cluster (.cut ..) => isFalse id
  | .cluster (.turn _ _ fate) | .call _ _ fate =>
    inferInstanceAs (Decidable (fate = Cluster.Fate.answered))
  | .cluster (.submit ..) | .cluster (.withdraw ..) | .cluster (.start ..) | .start | .execute .. |
    .tell .. | .drift .. => isTrue trivial

/-- The site after events, one after another. -/
def play (t : Worker.Template) : List Event → Site → Option Site
  | [], s => some s
  | e :: events, s => (s.next t e).bind (play t events)

/-- The site that comes about by events; the empty one if they cannot happen. -/
def outcome (t : Worker.Template) (events : List Event) : Site := (play t events {}).getD {}

variable {t : Worker.Template} {allowed : Event → Prop} {s s' : Site} {e : Event} {n : String}

/-- Events that have been played have happened. -/
theorem Run.play {events : List Event} (h : Run t allowed s) (ok : ∀ e ∈ events, allowed e)
    (hplay : Site.play t events s = some s') : Run t allowed s' := by
  induction events generalizing s with
  | nil =>
    obtain rfl := Option.some.inj hplay
    exact h
  | cons e events ih =>
    obtain ⟨s₁, hstep, hrest⟩ := Option.bind_eq_some_iff.mp hplay
    exact ih (h.next (ok e (List.mem_cons_self ..)) hstep)
      (fun e he => ok e (List.mem_cons_of_mem _ he)) hrest

theorem Run.outcome {events : List Event} (ok : ∀ e ∈ events, allowed e) :
    Run t allowed (outcome t events) := by
  rw [Site.outcome]
  cases hplay : Site.play t events {} with
  | none => exact .start
  | some s => exact Run.play .start ok hplay

/-! ## Events one by one -/

/-- A cycle calls the store, and the call meets its fate. -/
theorem next_call {i : Nat} {clock : Instant} {fate : Cluster.Fate}
    (h : s.next t (.call i clock fate) = some s') :
    ∃ round call resume reply store, s.rounds[i]? = some round ∧
      round.rest = .ask (.store call) resume ∧
      s.cluster.meet clock call fate = some (reply, store) ∧
      s' = { s with
        cluster := s.cluster.become store
        rounds := s.rounds.set i (round.hear (.store call) reply (resume reply)) } := by
  rw [next] at h
  split at h
  · next round hround =>
    split at h
    · next call resume hrest =>
      obtain ⟨⟨reply, store⟩, hmeet, rfl⟩ := Option.map_eq_some_iff.mp h
      exact ⟨round, call, resume, reply, store, hround, hrest, hmeet, rfl⟩
    · cases h
  · cases h

/-- A command line does something, and is told nothing wrong. -/
theorem next_execute {i : Nat} {o : Podman.Outcome} {deed : Deed}
    (h : s.next t (.execute i o deed) = some s') :
    ∃ round arguments resume containers, s.rounds[i]? = some round ∧
      round.rest = .ask (.host arguments) resume ∧ s.truthful arguments o ∧
      s.perform i arguments deed = some containers ∧
      s' = { s with
        containers
        rounds := s.rounds.set i { round.hear (.host arguments) o (resume o) with
          sighted := s.sight arguments o } } := by
  rw [next] at h
  split at h
  · next round hround =>
    split at h
    · next arguments resume hrest =>
      split at h
      · next htrue =>
        obtain ⟨containers, hdeed, rfl⟩ := Option.map_eq_some_iff.mp h
        exact ⟨round, arguments, resume, containers, hround, hrest, htrue, hdeed, rfl⟩
      · cases h
    · cases h
  · cases h

theorem next_tell {i : Nat} (h : s.next t (.tell i) = some s') :
    ∃ round job resume, s.rounds[i]? = some round ∧ round.rest = .ask (.notify job) resume ∧
      s' = { s with rounds := s.rounds.set i (round.hear (.notify job) () (resume ())) } := by
  rw [next] at h
  split at h
  · next round hround =>
    split at h
    · next job resume hrest => exact ⟨round, job, resume, hround, hrest, (Option.some.inj h).symm⟩
    · cases h
  · cases h

/-! ## What an event does -/

/-- The store is as it was, or one call has changed it. -/
theorem next_stores (h : s.next t e = some s') :
    s'.cluster.stores = s.cluster.stores ∨
      s'.cluster.stores = s'.cluster.store :: s.cluster.stores ∧
        ∃ call, s.cluster.store.Change call s'.cluster.store := by
  cases e with
  | cluster e =>
    obtain ⟨c, hc, rfl⟩ := Option.map_eq_some_iff.mp h
    rcases Cluster.next_cases hc with ⟨hstores, -⟩ | ⟨hstores, -, call, -, hchange⟩
    · exact .inl hstores
    · exact .inr ⟨hstores, call, hchange⟩
  | start =>
    obtain rfl := Option.some.inj h
    exact .inl rfl
  | call =>
    obtain ⟨round, call, resume, reply, store, -, -, hmeet, rfl⟩ := next_call h
    exact .inr ⟨rfl, call, Cluster.meet_change hmeet⟩
  | execute =>
    obtain ⟨round, arguments, resume, containers, -, -, -, -, rfl⟩ := next_execute h
    exact .inl rfl
  | tell =>
    obtain ⟨round, job, resume, -, -, rfl⟩ := next_tell h
    exact .inl rfl
  | drift =>
    obtain ⟨container, -, rfl⟩ := Option.map_eq_some_iff.mp h
    exact .inl rfl

/-- A cycle goes on. -/
inductive Goes (s : Site) (round : Round) : Round → Prop where
  | called {call : StoreCall} {resume : call.Answer → SyncScript (Except SyncError Unit)}
      {clock : Instant} {fate : Cluster.Fate} {reply : call.Answer} {store : MemoryStore}
      (rest : round.rest = .ask (.store call) resume)
      (met : s.cluster.meet clock call fate = some (reply, store)) :
      Goes s round (round.hear (.store call) reply (resume reply))
  | executed {arguments : Podman.Invocation} {o : Podman.Outcome}
      {resume : Podman.Outcome → SyncScript (Except SyncError Unit)}
      (rest : round.rest = .ask (.host arguments) resume) (truthful : s.truthful arguments o) :
      Goes s round { round.hear (.host arguments) o (resume o) with
        sighted := s.sight arguments o }
  | told {job : String} {resume : Unit → SyncScript (Except SyncError Unit)}
      (rest : round.rest = .ask (.notify job) resume) :
      Goes s round (round.hear (.notify job) () (resume ()))

/-- Whoever goes on has asked a question. -/
theorem Goes.answered {round round' : Round} (h : s.Goes round round') :
    ∃ q resume reply, round.rest = .ask q resume ∧ round'.log = round.log ++ [⟨q, reply⟩] ∧
      round'.rest = resume reply := by
  cases h with
  | called rest => exact ⟨_, _, _, rest, rfl, rfl⟩
  | executed rest => exact ⟨_, _, _, rest, rfl, rfl⟩
  | told rest => exact ⟨_, _, _, rest, rfl, rfl⟩

/-- A cycle begins or goes on, or all are where they were. -/
theorem next_rounds (h : s.next t e = some s') :
    s'.rounds = s.rounds ∨ s'.rounds = s.rounds ++ [.begin] ∨
      ∃ i round round', s.rounds[i]? = some round ∧ s.Goes round round' ∧
        s'.rounds = s.rounds.set i round' := by
  cases e with
  | cluster e =>
    obtain ⟨c, -, rfl⟩ := Option.map_eq_some_iff.mp h
    exact .inl rfl
  | start =>
    obtain rfl := Option.some.inj h
    exact .inr (.inl rfl)
  | call =>
    obtain ⟨round, call, resume, reply, store, hround, hrest, hmeet, rfl⟩ := next_call h
    exact .inr (.inr ⟨_, round, _, hround, .called hrest hmeet, rfl⟩)
  | execute =>
    obtain ⟨round, arguments, resume, containers, hround, hrest, htrue, -, rfl⟩ := next_execute h
    exact .inr (.inr ⟨_, round, _, hround, .executed hrest htrue, rfl⟩)
  | tell =>
    obtain ⟨round, job, resume, hround, hrest, rfl⟩ := next_tell h
    exact .inr (.inr ⟨_, round, _, hround, .told hrest, rfl⟩)
  | drift =>
    obtain ⟨container, -, rfl⟩ := Option.map_eq_some_iff.mp h
    exact .inl rfl

/-- A container has been there, perhaps in another state, or a cycle has just run it. -/
theorem next_container (h : s.next t e = some s') {k : Container}
    (found : s'.containers.get? n = some k) :
    (∃ old, s.containers.get? n = some old ∧ k = { old with state := k.state }) ∨
      ∃ round round' arguments resume o, s.rounds[k.runner]? = some round ∧
        round.rest = .ask (.host arguments) resume ∧
        s'.rounds = s.rounds.set k.runner round' ∧
        round'.log = round.log ++ [command arguments o] ∧ subject? "run" arguments = some n ∧
        k.command = arguments ∧ k.since = s.cluster.past.length := by
  cases e with
  | cluster e =>
    obtain ⟨c, -, rfl⟩ := Option.map_eq_some_iff.mp h
    exact .inl ⟨k, found, rfl⟩
  | start =>
    obtain rfl := Option.some.inj h
    exact .inl ⟨k, found, rfl⟩
  | call =>
    obtain ⟨round, call, resume, reply, store, -, -, -, rfl⟩ := next_call h
    exact .inl ⟨k, found, rfl⟩
  | tell =>
    obtain ⟨round, job, resume, -, -, rfl⟩ := next_tell h
    exact .inl ⟨k, found, rfl⟩
  | drift name state =>
    obtain ⟨container, hold, rfl⟩ := Option.map_eq_some_iff.mp h
    cases state with
    | none =>
      dsimp only at found
      rw [Table.get?_erase] at found
      split at found
      · cases found
      · exact .inl ⟨k, found, rfl⟩
    | some state =>
      dsimp only at found
      rw [Table.get?_insert] at found
      split at found
      · next hname =>
        subst hname
        obtain rfl := Option.some.inj found
        exact .inl ⟨container, hold, rfl⟩
      · exact .inl ⟨k, found, rfl⟩
  | execute i o deed =>
    obtain ⟨round, arguments, resume, containers, hround, hrest, -, hdeed, rfl⟩ := next_execute h
    cases deed with
    | nothing =>
      obtain rfl := Option.some.inj hdeed
      exact .inl ⟨k, found, rfl⟩
    | removes =>
      obtain ⟨name, -, rfl⟩ := Option.map_eq_some_iff.mp hdeed
      dsimp only at found
      rw [Table.get?_erase] at found
      split at found
      · cases found
      · exact .inl ⟨k, found, rfl⟩
    | starts state =>
      rw [perform] at hdeed
      split at hdeed
      · next name hsubject =>
        split at hdeed
        · cases hdeed
        · obtain rfl := Option.some.inj hdeed
          dsimp only at found
          rw [Table.get?_insert] at found
          split at found
          · next hname =>
            subst hname
            obtain rfl := Option.some.inj found
            exact .inr ⟨round, _, arguments, resume, o, hround, hrest, rfl, rfl, hsubject, rfl, rfl⟩
          · exact .inl ⟨k, found, rfl⟩
      · cases hdeed

end Site

end JobOperator.Launcher
