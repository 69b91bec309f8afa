import JobOperator.Proofs.Lifecycle.Discipline
import JobOperator.Proofs.Store.Change

/-!
# A store and the invocations over it

Invocations of the reconciler, for the same job or for others, take turns at one store
in any order; so do clients that submit and withdraw jobs, and the host that reports
on workers and loses them. One turn of an invocation is one call to the store.

* `Invocation`: one run of the reconciler's script, with its transcript and with what
  it has still to do.
* `Cluster.Fate`: what becomes of a call. It may read a store of the past, and it may
  fail before or after it takes effect, with any error.
* `Cluster.Event`: everything that can happen; `Cluster.next` makes it happen.
* `Cluster.Run`: the clusters that come about by events of some kind, from the empty
  store; `Cluster.Reachable` allows all of them.

The cluster remembers all stores there have been, the uids that were given out, and
every invocation, also one that has ended. Nothing that runs can see this: it is there
for stale reads, and to have something to say of the past.
-/

namespace JobOperator

/-- An invocation of the reconciler. -/
structure Invocation where
  /-- the name of the job that it is for -/
  job : String
  /-- what its clock reads -/
  now : Instant
  pacing : Pacing := {}
  /-- what it has asked and was answered, oldest first -/
  log : StoreTranscript
  /-- what it has still to do; `none` once it has been cut short -/
  rest : Option (StoreScript (Except ReconcileError Requeue))

namespace Invocation

/-- The reconciler that an invocation is one of. -/
def reconciler (inv : Invocation) (t : Worker.Template) : Reconciler := ⟨t, inv.pacing⟩

/-- The script of an invocation, from its beginning. -/
def script (inv : Invocation) (t : Worker.Template) :
    StoreScript (Except ReconcileError Requeue) :=
  (inv.reconciler t).reconcile inv.job inv.now

/-- An invocation that has not done anything yet. -/
def begin (t : Worker.Template) (job : String) (now : Instant) (pacing : Pacing) : Invocation where
  job := job
  now := now
  pacing := pacing
  log := []
  rest := some (Reconciler.reconcile ⟨t, pacing⟩ job now)

/-- The invocation goes on with the answer to a call. -/
def hear (inv : Invocation) (call : StoreCall) (reply : call.Answer)
    (rest : StoreScript (Except ReconcileError Requeue)) : Invocation :=
  { inv with log := inv.log ++ [⟨call, reply⟩], rest := some rest }

end Invocation

/-- A call that has no effect. -/
def StoreCall.reads : StoreCall → Bool
  | .getJob _ | .listJobs | .getWorker _ | .listWorkers _ => true
  | _ => false

/-- A store, the invocations over it, and what there has been before. -/
structure Cluster where
  store : MemoryStore := {}
  /-- the stores before, the last one first -/
  past : List MemoryStore := []
  /-- the uids that have been given out -/
  issued : List Uid := []
  /-- all invocations there have been, in the order of their beginning -/
  invocations : List Invocation := []

namespace Cluster

/-- What becomes of a call. -/
inductive Fate where
  /-- it takes effect, and is answered -/
  | answered
  /-- it is answered from a store of the past -/
  | stale (age : Nat)
  /-- it fails, and has no effect -/
  | refused (error : StoreError)
  /-- it takes effect, but an error is answered -/
  | unheard (error : StoreError)
  deriving DecidableEq, Repr

/-- What can happen. -/
inductive Event where
  /-- a client submits a job, which is given a uid -/
  | submit (submission : Job.Submission) (uid : Uid) (createdAt : Instant)
  /-- a client deletes a job -/
  | withdraw (job : String)
  /-- the host reports the phase of a worker -/
  | report (worker : String) (phase : Worker.Phase)
  /-- a worker is deleted -/
  | lose (worker : String)
  /-- an invocation begins -/
  | start (job : String) (now : Instant) (pacing : Pacing)
  /-- an invocation makes its next call, while the store's clock reads `clock` -/
  | turn (invocation : Nat) (clock : Instant) (fate : Fate)
  /-- an invocation is cut short -/
  | cut (invocation : Nat)
  deriving DecidableEq, Repr

/-- All stores there have been, the present one first. -/
def stores (c : Cluster) : List MemoryStore := c.store :: c.past

/-- The store changes. -/
def become (c : Cluster) (store : MemoryStore) : Cluster :=
  { c with store, past := c.store :: c.past }

/-- The answer to a call, and the store after it. -/
def meet (c : Cluster) (clock : Instant) (call : StoreCall) :
    Fate → Option (call.Answer × MemoryStore)
  | .answered => some (c.store.answer clock call)
  | .stale age =>
    if call.reads then c.past[age]?.map fun old => ((old.answer clock call).1, c.store) else none
  | .refused e => some (.error e, c.store)
  | .unheard e => some (.error e, (c.store.answer clock call).2)

/-- The cluster after an event, if it can happen. A uid is given out once. -/
def next (t : Worker.Template) (c : Cluster) : Event → Option Cluster
  | .submit submission uid createdAt =>
    if uid ∈ c.issued then none
    else some { c.become (c.store.createJob (submission.toJob uid createdAt)).2 with
      issued := uid :: c.issued }
  | .withdraw job => some (c.become (c.store.deleteJob job).2)
  | .report worker phase => some (c.become (c.store.updateWorkerPhase worker phase).2)
  | .lose worker => some (c.become (c.store.deleteWorker worker).2)
  | .start job now pacing =>
    some { c with invocations := c.invocations ++ [.begin t job now pacing] }
  | .turn i clock fate =>
    match c.invocations[i]? with
    | some inv =>
      match inv.rest with
      | some (.ask call resume) =>
        (c.meet clock call fate).map fun (reply, store) =>
          { c.become store with
            invocations := c.invocations.set i (inv.hear call reply (resume reply)) }
      | _ => none
    | none => none
  | .cut i =>
    c.invocations[i]?.map fun inv =>
      { c with invocations := c.invocations.set i { inv with rest := none } }

/-- The clusters that come about by allowed events. -/
inductive Run (t : Worker.Template) (allowed : Event → Prop) : Cluster → Prop where
  | start : Run t allowed {}
  | next {c c' : Cluster} {e : Event} (before : Run t allowed c) (ok : allowed e)
      (step : c.next t e = some c') : Run t allowed c'

/-- The clusters that come about. -/
abbrev Reachable (t : Worker.Template) : Cluster → Prop := Run t fun _ => True

/-- An event without stale reads and failing calls. -/
def Event.smooth : Event → Prop
  | .turn _ _ fate => fate = .answered
  | _ => True

instance : (e : Event) → Decidable e.smooth
  | .turn _ _ fate => inferInstanceAs (Decidable (fate = .answered))
  | .submit .. | .withdraw .. | .report .. | .lose .. | .start .. | .cut .. => isTrue trivial

/-- The cluster after events, one after another. -/
def play (t : Worker.Template) : List Event → Cluster → Option Cluster
  | [], c => some c
  | e :: events, c => (c.next t e).bind (play t events)

/-- The cluster that comes about by events; the empty one if they cannot happen. -/
def outcome (t : Worker.Template) (events : List Event) : Cluster := (play t events {}).getD {}

/-- An invocation makes so many calls, all of which are answered. -/
def turns (i count : Nat) : List Event := .replicate count (.turn i (.ofSecond 0) .answered)

/-- A job to play with. -/
def bell : Job.Submission where
  name := "bell"
  spec := { workerImage := "aer:0.15", circuits := "[]" }

variable {t : Worker.Template} {allowed : Event → Prop} {c c' : Cluster}

/-- Events that have been played have happened. -/
theorem Run.play {events : List Event} (h : Run t allowed c) (ok : ∀ e ∈ events, allowed e)
    (hplay : Cluster.play t events c = some c') : Run t allowed c' := by
  induction events generalizing c with
  | nil =>
    obtain rfl := Option.some.inj hplay
    exact h
  | cons e events ih =>
    obtain ⟨c₁, hstep, hrest⟩ := Option.bind_eq_some_iff.mp hplay
    exact ih (h.next (ok e (List.mem_cons_self ..)) hstep)
      (fun e he => ok e (List.mem_cons_of_mem _ he)) hrest

theorem Run.outcome {events : List Event} (ok : ∀ e ∈ events, allowed e) :
    Run t allowed (outcome t events) := by
  unfold Cluster.outcome
  cases hplay : Cluster.play t events {} with
  | none => exact .start
  | some c => exact Run.play .start ok hplay

/-! ## Events one by one -/

/-- A submission gives out a uid that has not been given out before. -/
theorem next_submit {submission : Job.Submission} {uid : Uid} {createdAt : Instant}
    (h : c.next t (.submit submission uid createdAt) = some c') : uid ∉ c.issued ∧
      c' = { c.become (c.store.createJob (submission.toJob uid createdAt)).2 with
        issued := uid :: c.issued } := by
  unfold next at h
  dsimp only at h
  split at h
  · cases h
  · next hfresh => exact ⟨hfresh, (Option.some.inj h).symm⟩

/-- A turn is a call of an invocation that meets its fate. -/
theorem next_turn {i : Nat} {clock : Instant} {fate : Fate}
    (h : c.next t (.turn i clock fate) = some c') :
    ∃ inv call resume reply store, c.invocations[i]? = some inv ∧
      inv.rest = some (.ask call resume) ∧ c.meet clock call fate = some (reply, store) ∧
      c' = { c.become store with
        invocations := c.invocations.set i (inv.hear call reply (resume reply)) } := by
  unfold next at h
  dsimp only at h
  split at h
  · next inv hinv =>
    split at h
    · next call resume hrest =>
      obtain ⟨⟨reply, store⟩, hmeet, rfl⟩ := Option.map_eq_some_iff.mp h
      exact ⟨inv, call, resume, reply, store, hinv, hrest, hmeet, rfl⟩
    · cases h
  · cases h

/-- Whatever becomes of a call, the store changes as by the call or not at all. -/
theorem meet_change {clock : Instant} {call : StoreCall} {fate : Fate} {reply : call.Answer}
    {store : MemoryStore} (h : c.meet clock call fate = some (reply, store)) :
    c.store.Change call store := by
  cases fate with
  | answered =>
    obtain ⟨-, rfl⟩ := Prod.mk.inj (Option.some.inj h)
    exact c.store.answer_change clock call
  | stale age =>
    unfold meet at h
    dsimp only at h
    split at h
    · obtain ⟨_, -, heq⟩ := Option.map_eq_some_iff.mp h
      obtain ⟨-, rfl⟩ := Prod.mk.inj heq
      exact .nothing call
    · cases h
  | refused e =>
    obtain ⟨-, rfl⟩ := Prod.mk.inj (Option.some.inj h)
    exact .nothing call
  | unheard e =>
    obtain ⟨-, rfl⟩ := Prod.mk.inj (Option.some.inj h)
    exact c.store.answer_change clock call

/-- An answer that is no error is the answer of a store that there has been. -/
theorem meet_ok {clock : Instant} {call : StoreCall} {fate : Fate} {value : call.Value}
    {store : MemoryStore} (h : c.meet clock call fate = some (.ok value, store)) :
    ∃ s ∈ c.stores, (s.answer clock call).1 = .ok value := by
  cases fate with
  | answered =>
    obtain ⟨heq, -⟩ := Prod.mk.inj (Option.some.inj h)
    exact ⟨c.store, List.mem_cons_self .., heq⟩
  | stale age =>
    unfold meet at h
    dsimp only at h
    split at h
    · obtain ⟨old, hold, heq⟩ := Option.map_eq_some_iff.mp h
      obtain ⟨heq, -⟩ := Prod.mk.inj heq
      exact ⟨old, List.mem_cons_of_mem _ (List.mem_of_getElem? hold), heq⟩
    · cases h
  | refused e => cases (Prod.mk.inj (Option.some.inj h)).1
  | unheard e => cases (Prod.mk.inj (Option.some.inj h)).1

end Cluster

end JobOperator
