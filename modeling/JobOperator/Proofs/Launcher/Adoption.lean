import JobOperator.Proofs.Launcher.Site
import JobOperator.Proofs.Store.Listing
import Mathlib.Data.List.Chain

/-!
# Whose container it is

Containers are found by the name of a worker, and so are the records that phases are written to.
A name may come to belong to another worker: the job may have been deleted and submitted again,
while the container of the first worker is still there. Then its state is written down for the
second one.

* `Site.LaunchedFor`: a cycle has run the container for the sake of a worker on its list.
* `Site.Adopts`: a cycle is about to write the phase of a container for a worker.
* `Site.Sound`: the invariant. Stores change by calls, cycles follow their script, and **every
  container was run for a worker of its name**.
* `Site.adopted_own_iff`: hence a phase is that of the worker's own container exactly if the name
  has belonged to one incarnation since the container was run.
* `Site.not_adopted_own`: it may have changed hands.
-/

namespace JobOperator

namespace Cluster

/-- The stores from a time on. There had been so many before. -/
def storesSince (c : Cluster) (time : Nat) : List MemoryStore :=
  c.stores.take (c.stores.length - time)

/-- The time at which a name was given to the worker that has it now. From then on there has
always been a worker of this name. -/
def bornAt (c : Cluster) (name : String) : Nat :=
  c.stores.length - (c.stores.takeWhile fun m => m.workers.contains name).length

/-- In the second store, no name belongs to another owner than in the first one. -/
def KeepsOwners (m' m : MemoryStore) : Prop :=
  ∀ name worker worker', m.workers.get? name = some worker → m'.workers.get? name = some worker' →
    worker'.owner = worker.owner

/-- As long as a name is not given up, it belongs to one owner. -/
theorem owner_of_chain {m : MemoryStore} {older : List MemoryStore} {name : String}
    {worker : Worker} (chain : (m :: older).IsChain KeepsOwners)
    (found : m.workers.get? name = some worker)
    (taken : ∀ m' ∈ older, m'.workers.contains name) :
    ∀ m' ∈ m :: older, ∃ w, m'.workers.get? name = some w ∧ w.owner = worker.owner := by
  induction older generalizing m worker with
  | nil => exact List.forall_mem_singleton.mpr ⟨worker, found, rfl⟩
  | cons next older ih =>
    obtain ⟨hkeeps, hchain⟩ := List.isChain_cons_cons.mp chain
    obtain ⟨htaken, hrest⟩ := List.forall_mem_cons.mp taken
    obtain ⟨w, hw⟩ := Option.isSome_iff_exists.mp htaken
    have howner := hkeeps name w worker hw found
    refine List.forall_mem_cons.mpr ⟨⟨worker, found, rfl⟩, fun m' hm' => ?_⟩
    obtain ⟨w', hw', howner'⟩ := ih hchain hw hrest m' hm'
    exact ⟨w', hw', howner'.trans howner.symm⟩

/-- The first entries of a list have a property exactly if they are among those that are taken
while it holds. -/
theorem forall_mem_take_iff {α : Type} {p : α → Bool} {l : List α} {k : Nat} (h : k ≤ l.length) :
    (∀ a ∈ l.take k, p a) ↔ k ≤ (l.takeWhile p).length := by
  induction l generalizing k with
  | nil => simp_all
  | cons a l ih =>
    cases k with
    | zero => simp
    | succ k =>
      rw [List.take_succ_cons, List.forall_mem_cons, ih (Nat.le_of_succ_le_succ h)]
      by_cases hp : p a <;> simp [hp]

/-- A worker is older than a time exactly if there has been one of its name since then. -/
theorem bornAt_le_iff {c : Cluster} {name : String} {time : Nat} :
    c.bornAt name ≤ time ↔ ∀ m ∈ c.storesSince time, m.workers.contains name := by
  refine Iff.trans ?_ (forall_mem_take_iff (Nat.sub_le ..)).symm
  rw [bornAt]
  omega

end Cluster

namespace Launcher

/-- A cycle has given the command line that runs a worker on its list. -/
def Launches (log : SyncTranscript) (arguments : Podman.Invocation) (patron : Worker) : Prop :=
  ∃ workers o, Lists log workers ∧ patron ∈ workers ∧ patron.phase = .pending ∧
    arguments = Podman.runArguments patron ∧ command arguments o ∈ log

theorem Launches.append {log : SyncTranscript} {arguments : Podman.Invocation} {patron : Worker}
    (h : Launches log arguments patron) (more : SyncTranscript) :
    Launches (log ++ more) arguments patron := by
  obtain ⟨workers, o, hlists, hmem, hpending, harguments, hlog⟩ := h
  exact ⟨workers, o, hlists.append more, hmem, hpending, harguments, List.mem_append_left _ hlog⟩

namespace Site

/-- The container was run for the sake of the worker, as it was listed at that time. -/
def LaunchedFor (s : Site) (k : Container) (patron : Worker) : Prop :=
  ∃ runner, s.rounds[k.runner]? = some runner ∧ Launches runner.log k.command patron

/-- The container was run for a worker of this name. -/
def Issued (s : Site) (name : String) (k : Container) : Prop :=
  k.since ≤ s.cluster.past.length ∧ ∃ patron, patron.name = name ∧ s.LaunchedFor k patron

/-- A cycle was told the state of the container, and is about to write a phase for the worker that
has this name now. -/
def Adopts (s : Site) (name : String) (k : Container) (phase : Worker.Phase) (worker : Worker) :
    Prop :=
  (∃ round ∈ s.rounds, round.sighted = some k ∧ round.writes = some (name, phase)) ∧
    s.cluster.store.workers.get? name = some worker

/-- A list of workers that the cycle has got is that of a store. -/
def Informed (s : Site) (round : Round) : Prop :=
  ∀ workers, Lists round.log workers → ∃ m ∈ s.cluster.stores, workers = m.listWorkers none

/-- A container that the cycle has just been told of is one that was there, in this state. -/
def Aware (s : Site) (round : Round) : Prop :=
  ∀ before arguments o k, round.log = before ++ [command arguments o] → round.sighted = some k →
    ∃ name, subject? "inspect" arguments = some name ∧
      Podman.inspected name o = .ok (some k.state) ∧ s.Issued name k

/-- What holds of a site, whatever happens. -/
structure Sound (s : Site) : Prop where
  filed : ∀ m ∈ s.cluster.stores, m.Filed
  steady : s.cluster.stores.IsChain Cluster.KeepsOwners
  /-- a cycle does what its script does -/
  leads : ∀ round ∈ s.rounds, sync.Leads round.log round.rest
  informed : ∀ round ∈ s.rounds, s.Informed round
  aware : ∀ round ∈ s.rounds, s.Aware round
  issued : ∀ name k, s.containers.get? name = some k → s.Issued name k

variable {t : Worker.Template} {allowed : Event → Prop} {s s' : Site} {e : Event} {n : String}
  {k : Container} {patron worker : Worker} {phase : Worker.Phase} {round : Round}

/-! ## What stays -/

/-- Every cycle keeps its place, and what it has asked. -/
theorem next_log (h : s.next t e = some s') {i : Nat} (hround : s.rounds[i]? = some round) :
    ∃ round', s'.rounds[i]? = some round' ∧ round.log <+: round'.log := by
  have hlt : i < s.rounds.length := (List.getElem?_eq_some_iff.mp hround).1
  rcases next_rounds h with hsame | hbegin | ⟨j, old, new, hold, hgoes, hset⟩
  · exact ⟨round, hsame ▸ hround, List.prefix_refl _⟩
  · refine ⟨round, ?_, List.prefix_refl _⟩
    rw [hbegin, List.getElem?_append_left hlt, hround]
  · rw [hset]
    by_cases hij : j = i
    · subst hij
      obtain rfl := Option.some.inj (hold.symm.trans hround)
      obtain ⟨q, resume, reply, -, hlog, -⟩ := hgoes.answered
      exact ⟨new, List.getElem?_set_self hlt, hlog ▸ List.prefix_append ..⟩
    · exact ⟨round, by rw [List.getElem?_set_ne hij, hround], List.prefix_refl _⟩

theorem LaunchedFor.next (h : s.LaunchedFor k patron) (hstep : s.next t e = some s') :
    s'.LaunchedFor k patron := by
  obtain ⟨runner, hrunner, hlaunches⟩ := h
  obtain ⟨runner', hrunner', more, hmore⟩ := next_log hstep hrunner
  exact ⟨runner', hrunner', hmore ▸ hlaunches.append more⟩

/-- There are more and more stores of the past. -/
theorem next_past (h : s.next t e = some s') : s.cluster.past.length ≤ s'.cluster.past.length := by
  have hlength : s.cluster.stores.length ≤ s'.cluster.stores.length := by
    rcases next_stores h with hsame | ⟨hmore, -⟩
    · exact Nat.le_of_eq (by rw [hsame])
    · rw [hmore]
      exact Nat.le_succ _
  exact Nat.le_of_succ_le_succ hlength

theorem Issued.next (h : s.Issued n k) (hstep : s.next t e = some s') : s'.Issued n k := by
  obtain ⟨hsince, patron, hname, hlaunched⟩ := h
  exact ⟨Nat.le_trans hsince (next_past hstep), patron, hname, hlaunched.next hstep⟩

theorem Informed.next (h : s.Informed round) (hstep : s.next t e = some s') :
    s'.Informed round := by
  intro workers hlists
  obtain ⟨m, hm, hworkers⟩ := h workers hlists
  refine ⟨m, ?_, hworkers⟩
  rcases next_stores hstep with hsame | ⟨hmore, -⟩
  · rwa [hsame]
  · rw [hmore]
    exact List.mem_cons_of_mem _ hm

theorem Aware.next (h : s.Aware round) (hstep : s.next t e = some s') : s'.Aware round := by
  intro before arguments o k hlog hsight
  obtain ⟨name, hname, htold, hissued⟩ := h before arguments o k hlog hsight
  exact ⟨name, hname, htold, hissued.next hstep⟩

/-! ## The invariant -/

/-- A command line that runs a container runs it for a worker on the list that still waits. -/
theorem launches_of_asked {log : SyncTranscript} {arguments : Podman.Invocation}
    {resume : Podman.Outcome → SyncScript (Except SyncError Unit)}
    (h : sync.Leads log (.ask (.host arguments) resume)) (hrun : subject? "run" arguments = some n)
    (o : Podman.Outcome) :
    ∃ patron, patron.name = n ∧ Launches (log ++ [command arguments o]) arguments patron := by
  obtain ⟨workers, hlists, hcommand⟩ := (sync_grounded.leads h).1
  rcases hcommand with ⟨v, -, rfl⟩ | ⟨v, hv, rfl, hpending, -⟩ | rfl | ⟨name, o', names, rfl, -⟩
  · cases hrun
  · exact ⟨v, Option.some.inj hrun, workers, o, hlists.append _, hv, hpending, rfl,
      List.mem_append_right _ (List.mem_singleton.mpr rfl)⟩
  · cases hrun
  · cases hrun

/-- What a cycle has listed is the list of a store. -/
theorem Goes.informed {round' : Round} (h : s.Goes round round') (hinformed : s.Informed round) :
    s.Informed round' := by
  intro workers hlists
  rcases List.eq_nil_or_concat round.log with hnil | ⟨earlier, x, hlast⟩
  · -- this is the first question
    cases h with
    | @called call resume clock fate reply store _ met =>
      rw [Round.hear, hnil] at hlists
      have hfirst := Option.some.inj hlists
      obtain rfl : call = .listWorkers none :=
        Ask.store.inj (congrArg Script.Exchange.question hfirst)
      obtain rfl : reply = .ok workers :=
        Script.Exchange.reply_inj (q := Ask.store (.listWorkers none)) hfirst
      obtain ⟨m, hm, hanswer⟩ := Cluster.meet_ok met
      exact ⟨m, hm, (Except.ok.inj hanswer).symm⟩
    | executed =>
      rw [Round.hear, hnil] at hlists
      cases hlists
    | told =>
      rw [Round.hear, hnil] at hlists
      cases hlists
  · obtain ⟨q, resume, reply, -, hlog, -⟩ := h.answered
    rw [hlog] at hlists
    exact hinformed workers (hlists.of_append (x := x) (by simp [hlast]))

/-- Who has been told the state of a container has been told of one that is there. -/
theorem Goes.aware {round' : Round} (h : s.Goes round round')
    (hissued : ∀ name k, s.containers.get? name = some k → s.Issued name k) :
    s.Aware round' := by
  intro before arguments o k hlog hsight
  cases h with
  | called =>
    have hlast := List.singleton_inj.mp (List.append_inj' hlog rfl).2
    cases congrArg Script.Exchange.question hlast
  | told =>
    have hlast := List.singleton_inj.mp (List.append_inj' hlog rfl).2
    cases congrArg Script.Exchange.question hlast
  | executed _ htrue =>
    obtain ⟨rfl, rfl⟩ := command_inj.mp (List.singleton_inj.mp (List.append_inj' hlog rfl).2)
    rw [truthful] at htrue
    dsimp only [sight] at hsight
    split at hsight
    · next name hname =>
      rw [hname] at htrue
      dsimp only at htrue
      split at hsight
      · next state htold =>
        rw [htold, hsight] at htrue
        have hstate : k.state = state := of_decide_eq_true htrue
        exact ⟨name, hname, hstate ▸ htold, hissued name k hsight⟩
      · cases hsight
    · cases hsight

theorem Sound.start : Sound {} where
  filed := fun m hm => by
    obtain rfl := List.mem_singleton.mp hm
    exact fun n w hw => by cases hw
  steady := .singleton _
  leads := fun _ h => nomatch h
  informed := fun _ h => nomatch h
  aware := fun _ h => nomatch h
  issued := fun _ _ h => nomatch h

/-- What holds of a cycle that begins, and of one that has gone on, holds of all of them. -/
theorem forall_rounds {P : Round → Prop} (hstep : s.next t e = some s') (hbegin : P .begin)
    (hold : ∀ round ∈ s.rounds, P round)
    (hgoes : ∀ round ∈ s.rounds, ∀ round', s.Goes round round' → P round') :
    ∀ round ∈ s'.rounds, P round := by
  intro round hround
  rcases next_rounds hstep with hsame | hmore | ⟨i, old, new, hi, hnew, hset⟩
  · exact hold round (hsame ▸ hround)
  · rw [hmore] at hround
    rcases List.mem_append.mp hround with hround | hround
    · exact hold round hround
    · exact List.mem_singleton.mp hround ▸ hbegin
  · rw [hset] at hround
    rcases List.mem_or_eq_of_mem_set hround with hround | rfl
    · exact hold round hround
    · exact hgoes old (List.mem_of_getElem? hi) round hnew

/-- **Nothing that happens breaks the invariant.** -/
theorem Sound.next (h : s.Sound) (hstep : s.next t e = some s') : s'.Sound where
  filed := by
    intro m hm
    rcases next_stores hstep with hsame | ⟨hmore, call, hchange⟩
    · exact h.filed m (hsame ▸ hm)
    · rw [hmore] at hm
      rcases List.mem_cons.mp hm with rfl | hm
      · exact (h.filed _ (List.mem_cons_self ..)).change hchange
      · exact h.filed m hm
  steady := by
    rcases next_stores hstep with hsame | ⟨hmore, call, hchange⟩
    · exact hsame ▸ h.steady
    · rw [hmore]
      exact .cons_cons (fun _ _ _ hw hw' => hchange.owner_eq hw hw') h.steady
  leads := by
    refine forall_rounds hstep .start h.leads fun round hround round' hgoes => ?_
    obtain ⟨q, resume, reply, hrest, hlog, hrest'⟩ := hgoes.answered
    rw [hlog, hrest']
    exact (h.leads round hround).answer hrest reply
  informed := by
    refine forall_rounds hstep (fun _ hlists => nomatch hlists) ?_ ?_
    · intro round hround
      exact (h.informed round hround).next hstep
    · intro round hround round' hgoes
      exact (hgoes.informed (h.informed round hround)).next hstep
  aware := by
    refine forall_rounds hstep (fun _ _ _ _ _ hsight => nomatch hsight) ?_ ?_
    · intro round hround
      exact (h.aware round hround).next hstep
    · intro round _ round' hgoes
      exact (hgoes.aware h.issued).next hstep
  issued := by
    intro name k found
    rcases next_container hstep found with ⟨old, hold, heq⟩ | ⟨runner, runner', arguments, resume,
      o, hrunner, hrest, hset, hlog, hrun, rfl, hsince⟩
    · have hissued := (h.issued name old hold).next hstep
      rw [heq]
      exact hissued
    · refine ⟨hsince ▸ next_past hstep, ?_⟩
      have hleads := h.leads runner (List.mem_of_getElem? hrunner)
      rw [hrest] at hleads
      obtain ⟨patron, hname, hlaunches⟩ := launches_of_asked hleads hrun o
      refine ⟨patron, hname, runner', ?_, hlog ▸ hlaunches⟩
      rw [hset, List.getElem?_set_self (List.getElem?_eq_some_iff.mp hrunner).1]

theorem Run.sound (h : Run t allowed s) : s.Sound := by
  induction h with
  | start => exact .start
  | next _ _ hstep ih => exact ih.next hstep

/-! ## Phases that are written down -/

/-- A cycle that is told the state of a container and is about to write a phase writes what this
state stands for. The container was run for a worker of this name. -/
theorem Sound.adopted (h : s.Sound) (hadopts : s.Adopts n k phase worker) :
    phase = k.state.workerPhase ∧ s.Issued n k := by
  obtain ⟨⟨round, hround, hsight, hwrites⟩, -⟩ := hadopts
  have hleads := h.leads round hround
  rw [Round.writes] at hwrites
  split at hwrites
  · next name phase' resume hrest =>
    obtain ⟨rfl, rfl⟩ := Prod.mk.inj (Option.some.inj hwrites)
    rw [hrest] at hleads
    obtain ⟨_, v, before, asked, -, -, hlog, hfound, -, rfl⟩ := (sync_grounded.leads hleads).1
    cases hfound with
    | state told =>
      obtain ⟨name, hname, htold, hissued⟩ := h.aware round hround _ _ _ k hlog hsight
      obtain rfl := Option.some.inj hname
      rw [told] at htold
      exact ⟨congrArg _ (Option.some.inj (Except.ok.inj htold)), hissued⟩
    | lost told =>
      obtain ⟨name, hname, htold, -⟩ := h.aware round hround _ _ _ k hlog hsight
      obtain rfl := Option.some.inj hname
      rw [told] at htold
      cases htold
    | refused =>
      -- the last command line has run the container
      rw [List.append_cons] at hlog
      obtain ⟨name, hname, -⟩ := h.aware round hround _ _ _ k hlog hsight
      cases hname
  · cases hwrites

/-- Containers are run for workers that are stored under their name at some time. -/
theorem Sound.patron_stored (h : s.Sound) (hlaunched : s.LaunchedFor k patron) :
    ∃ m ∈ s.cluster.stores, m.workers.get? patron.name = some patron := by
  obtain ⟨runner, hrunner, workers, o, hlists, hmem, -⟩ := hlaunched
  obtain ⟨m, hm, rfl⟩ := h.informed runner (List.mem_of_getElem? hrunner) workers hlists
  exact ⟨m, hm, (h.filed m hm).mem_listWorkers.mp hmem⟩

/-- A worker is of the incarnation that a container was run for, and older than the container,
exactly if the name has belonged to this incarnation since then. -/
theorem Sound.own_iff (h : s.Sound) (found : s.cluster.store.workers.get? n = some worker)
    (hsince : k.since ≤ s.cluster.past.length) :
    (patron.owner.uid = worker.owner.uid ∧ s.cluster.bornAt n ≤ k.since) ↔
      ∀ m ∈ s.cluster.storesSince k.since, ∃ w, m.workers.get? n = some w ∧
        w.owner.uid = patron.owner.uid := by
  -- the present store is one of those since then
  have hsplit : s.cluster.storesSince k.since =
      s.cluster.store :: s.cluster.past.take (s.cluster.past.length - k.since) := by
    rw [Cluster.storesSince, Cluster.stores, List.length_cons, Nat.succ_sub hsince,
      List.take_succ_cons]
  rw [Cluster.bornAt_le_iff]
  constructor
  · rintro ⟨huid, htaken⟩ m hm
    have hchain := h.steady.take (s.cluster.stores.length - k.since)
    rw [← Cluster.storesSince, hsplit] at hchain
    rw [hsplit] at hm htaken
    obtain ⟨w, hw, howner⟩ := Cluster.owner_of_chain hchain found
      (fun m' hm' => htaken m' (List.mem_cons_of_mem _ hm')) m hm
    exact ⟨w, hw, by rw [howner, huid]⟩
  · intro hheld
    obtain ⟨w, hw, huid⟩ := hheld s.cluster.store (hsplit ▸ List.mem_cons_self ..)
    obtain rfl := Option.some.inj (found.symm.trans hw)
    refine ⟨huid.symm, fun m hm => ?_⟩
    obtain ⟨w', hw', -⟩ := hheld m hm
    rw [Table.contains, hw']
    rfl

/-- **Whose container it is.** A phase that is read off a container and is about to be written for
a worker is the one that the state of the container stands for, and the container was run for a
stored worker of the same name. It was run for this very worker, the one that is there now, exactly
if the name has belonged to one incarnation in all stores since then. -/
theorem adopted_own_iff (h : Run t allowed s) (hadopts : s.Adopts n k phase worker) :
    phase = k.state.workerPhase ∧ ∃ patron, patron.name = n ∧ s.LaunchedFor k patron ∧
      (∃ m ∈ s.cluster.stores, m.workers.get? n = some patron) ∧
      ((patron.owner.uid = worker.owner.uid ∧ s.cluster.bornAt n ≤ k.since) ↔
        ∀ m ∈ s.cluster.storesSince k.since, ∃ w, m.workers.get? n = some w ∧
          w.owner.uid = patron.owner.uid) := by
  obtain ⟨hphase, hsince, patron, rfl, hlaunched⟩ := h.sound.adopted hadopts
  exact ⟨hphase, patron, rfl, hlaunched, h.sound.patron_stored hlaunched,
    h.sound.own_iff hadopts.2 hsince⟩

/-- A job is submitted, and two invocations give it a worker. -/
def attended (uid invocation : Nat) : List Cluster.Event :=
  [.submit Cluster.bell (.ofNat uid) (.ofSecond 0), .start "bell" (.ofSecond 1) {}] ++
    Cluster.turns invocation 2 ++ [.start "bell" (.ofSecond 2) {}] ++
    Cluster.turns (invocation + 1) 4

/-- The container of a worker is run and comes to a good end. The job is deleted and submitted
again, and gets a worker of the same name. The launcher looks after this worker, and nobody has
removed the container. -/
def inherited : List Event :=
  (attended 1 0).map .cluster ++
  [.start, .call 0 (.ofSecond 3) .answered,
    .execute 0 (Rehearsal.Host.failure "Error: no such container bell-worker-0") .nothing,
    .execute 0 (Rehearsal.Host.success "") (.starts ⟨"running", 0⟩),
    .execute 0 (Rehearsal.Host.success "bell-worker-0\n") .nothing,
    .drift "bell-worker-0" (some ⟨"exited", 0⟩), .cluster (.withdraw "bell")] ++
  (attended 2 2).map .cluster ++
  [.start, .call 1 (.ofSecond 4) .answered,
    .execute 1 (Rehearsal.Host.success (Rehearsal.Host.report ⟨"exited", 0⟩)) .nothing]

/-- What a cycle is about to do with the container that it was told of, and when the worker that
has the name now was given it. -/
def outlook (s : Site) (i : Nat) : Option (Container × String × Worker.Phase × Worker × Nat) := do
  let round ← s.rounds[i]?
  let (name, phase) ← round.writes
  return (← round.sighted, name, phase, ← s.cluster.store.workers.get? name, s.cluster.bornAt name)

theorem Adopts.of_outlook {i born : Nat} (h : s.outlook i = some (k, n, phase, worker, born)) :
    s.Adopts n k phase worker ∧ s.cluster.bornAt n = born := by
  simp only [outlook, bind, Option.bind_eq_some_iff, pure, Option.some.injEq, Prod.mk.injEq] at h
  obtain ⟨round, hround, ⟨n, phase⟩, hwrites, k, hsight, worker, found, rfl, rfl, rfl, rfl, rfl⟩ :=
    h
  exact ⟨⟨⟨round, List.mem_of_getElem? hround, hsight, hwrites⟩, found⟩, rfl⟩

/-- The launcher is about to write that the second worker has succeeded. The container is older
than this worker. -/
theorem inherited_adopts : ∃ k worker, Run {} Event.ordinary (outcome {} inherited) ∧
    (outcome {} inherited).Adopts "bell-worker-0" k .succeeded worker ∧
    k.since < (outcome {} inherited).cluster.bornAt "bell-worker-0" := by
  have hview : ((outcome {} inherited).outlook 1).map
      (fun o => (o.1.since, o.2.1, o.2.2.1, o.2.2.2.2)) =
        some (8, "bell-worker-0", .succeeded, 15) := by
    decide +kernel
  obtain ⟨⟨k, n, phase, worker, born⟩, hlook, heq⟩ := Option.map_eq_some_iff.mp hview
  obtain ⟨hsince, rfl, rfl, rfl⟩ : k.since = 8 ∧ n = "bell-worker-0" ∧ phase = .succeeded ∧
      born = 15 := by simpa using heq
  obtain ⟨hadopts, hborn⟩ := Adopts.of_outlook hlook
  refine ⟨k, worker, .outcome (by decide), hadopts, ?_⟩
  rw [hborn, hsince]
  decide

theorem adopted_own_inherited : ∃ k worker patron, Run {} Event.ordinary (outcome {} inherited) ∧
    (outcome {} inherited).Adopts "bell-worker-0" k .succeeded worker ∧
    (outcome {} inherited).LaunchedFor k patron ∧ patron.name = "bell-worker-0" ∧
    ¬ ∀ m ∈ (outcome {} inherited).cluster.storesSince k.since,
      ∃ w, m.workers.get? "bell-worker-0" = some w ∧ w.owner.uid = patron.owner.uid := by
  obtain ⟨k, worker, hrun, hadopts, hlater⟩ := inherited_adopts
  obtain ⟨-, patron, hname, hlaunched, -, hown⟩ := adopted_own_iff hrun hadopts
  refine ⟨k, worker, patron, hrun, hadopts, hlaunched, hname, fun hheld => ?_⟩
  exact absurd (hown.mpr hheld).2 (Nat.not_le_of_lt hlater)

/-- A worker may be taken to have succeeded because another one of its name has. -/
theorem not_adopted_own : ¬ ∀ (t : Worker.Template) (s : Site) (n : String) (k : Container)
    (phase : Worker.Phase) (worker : Worker), Run t Event.ordinary s → s.Adopts n k phase worker →
    ∃ patron, patron.name = n ∧ s.LaunchedFor k patron ∧
      patron.owner.uid = worker.owner.uid ∧ s.cluster.bornAt n ≤ k.since := by
  intro hown
  obtain ⟨k, worker, hrun, hadopts, hlater⟩ := inherited_adopts
  obtain ⟨patron, -, -, -, hborn⟩ := hown _ _ _ k _ worker hrun hadopts
  exact absurd hborn (Nat.not_le_of_lt hlater)

end Site

end Launcher

end JobOperator
