import JobOperator.Proofs.Visit.Scripts

/-!
# An account of a calm visit

* `Script.account`: what a script ends with if all its calls are answered, the store that it leaves
  behind, and **the calls that it has made**.
* `Reconciler.attend`: the account of an invocation. It ends with what a calm visit is to direct
  (`Reconciler.attend_found`).
* `Reconciler.attend_terminal`, `Reconciler.attend_late`: what is asked of the store for a job that
  has finished, and for one that is past its deadline.
-/

namespace JobOperator

/-- What has come of a script that had a store to itself. -/
structure Account (α : Type) where
  result : α
  store : MemoryStore
  /-- the calls that were made, the first one first -/
  calls : List StoreCall

namespace Script

variable {α β : Type} {clock : Instant} {m m' m'' : MemoryStore}

/-- Runs a script in a store that answers every call. -/
def account (clock : Instant) : StoreScript α → MemoryStore → Account α
  | .done a, m => ⟨a, m, []⟩
  | .ask call resume, m =>
    let rest := (resume (m.answer clock call).1).account clock (m.answer clock call).2
    { rest with calls := call :: rest.calls }

variable {a : α} {b : β} {calls calls' : List StoreCall}

/-- The account of one script after another. -/
theorem account_bind {s : StoreScript α} {f : α → StoreScript β}
    (h : s.account clock m = ⟨a, m', calls⟩) (h' : (f a).account clock m' = ⟨b, m'', calls'⟩) :
    (s >>= f).account clock m = ⟨b, m'', calls ++ calls'⟩ := by
  induction s generalizing m calls with
  | done a' =>
    obtain ⟨rfl, rfl, rfl⟩ := Account.mk.inj h
    exact h'
  | ask call resume ih =>
    obtain ⟨rfl, rfl, rfl⟩ := Account.mk.inj h
    simp only [ask_bind, account, ih _ rfl, List.cons_append]

/-- The account of a call and what follows it. -/
theorem account_call {c : StoreCall} {f : c.Answer → StoreScript β} {reply : c.Answer}
    (h : m.answer clock c = (reply, m')) (h' : (f reply).account clock m' = ⟨b, m'', calls⟩) :
    (StoreScript.call c >>= f).account clock m = ⟨b, m'', c :: calls⟩ := by
  have hcall : (StoreScript.call c).account clock m = ⟨reply, m', [c]⟩ := by
    simp only [StoreScript.call, request, account, h]
  exact account_bind hcall h'

/-- A run in which nothing goes wrong comes to what the account says. -/
theorem run_calm (s : StoreScript α) (m : MemoryStore) : s.run (Visit.meet clock) (m, []) =
    (some (s.account clock m).result, (s.account clock m).store, []) := by
  induction s generalizing m with
  | done a => rfl
  | ask call resume ih => exact ih _ _

end Script

namespace Reconciler

variable {r : Reconciler} {now clock : Instant} {m : MemoryStore} {job : Job} {name : String}

/-- What comes of an invocation that has the store to itself. -/
def attend (r : Reconciler) (name : String) (now clock : Instant) (m : MemoryStore) :
    Account (Except ReconcileError Requeue) :=
  (r.reconcile name now).account clock m

/-- A calm visit leaves behind the store of the account. -/
theorem attend_store (r : Reconciler) (name : String) (now clock : Instant) (m : MemoryStore) :
    (r.attend name now clock m).store = r.visit name (.calm now clock) m :=
  (congrArg (·.2.1) (Script.run_calm (r.reconcile name now) m)).symm

/-- An invocation ends as a calm visit is to end. -/
theorem attend_found (found : m.jobs.get? job.name = some job) :
    (r.attend job.name now clock m).result = .ok (r.directed now m job) ∧
      (r.attend job.name now clock m).store = r.handled now clock m job := by
  have hscript : (r.reconcile job.name now).Withstands False clock _ _ m :=
    reconcile_withstands found rfl
  have hrun := run_of_ends hscript
  rw [Script.run_calm] at hrun
  exact ⟨Option.some.inj (congrArg Prod.fst hrun), congrArg (·.2.1) hrun⟩

/-! ## The calls -/

theorem removeWorker_account (name : String) (m : MemoryStore) :
    (removeWorker name).account clock m = ⟨.ok (), m.without [name], [.deleteWorker name]⟩ := by
  have hreply : m.answer clock (.deleteWorker name) = ((m.deleteWorker name).1, m.without [name]) :=
    Prod.ext rfl (m.deleteWorker_eq name)
  refine Script.account_call hreply ?_
  cases h : (m.deleteWorker name).1 with
  | ok _ => rfl
  | error e =>
    dsimp only
    rw [if_pos (MemoryStore.deleteWorker_eq_error h)]
    rfl

theorem removeWorkers_account (names : List String) (m : MemoryStore) :
    (removeWorkers names).account clock m =
      ⟨.ok (), m.without names, names.map .deleteWorker⟩ := by
  induction names generalizing m with
  | nil =>
    rw [MemoryStore.without_nil]
    rfl
  | cons name names ih =>
    refine (Script.account_bind (removeWorker_account name m) (ih _)).trans ?_
    rw [MemoryStore.without_without]
    rfl

/-- The calls by which the workers of a finished job are deleted. -/
def clearingCalls (m : MemoryStore) (name : String) : List StoreCall :=
  .getJob name :: .listWorkers (some name) :: (m.workersOf name).map .deleteWorker

/-- The call by which a job is deleted that has expired. -/
def collectCalls (job : Job) (now : Instant) : List StoreCall :=
  if job.retention now = .expired then [.deleteJob job.name] else []

theorem collect_account (found : m.jobs.get? job.name = some job) :
    (collect job (job.retention now) now).account clock m =
      ⟨.ok ((job.retention now).requeue now),
        if job.retention now = .expired then (m.deleteJob job.name).2 else m,
        collectCalls job now⟩ := by
  have hreply : m.answer clock (.deleteJob job.name) = (.ok (), (m.deleteJob job.name).2) :=
    MemoryStore.deleteJob_eq found
  rw [collectCalls]
  cases job.retention now with
  | expired => exact Script.account_call hreply rfl
  | forever | «until» => rfl

theorem finalize_account (found : m.jobs.get? job.name = some job) :
    (finalize job now).account clock m =
      ⟨.ok ((job.retention now).requeue now), m.wrappedUp job now,
        .listWorkers (some job.name) :: ((m.workersOf job.name).map .deleteWorker ++
          collectCalls job now)⟩ := by
  have found' : (m.without (m.workersOf job.name)).jobs.get? job.name = some job := found
  refine Script.account_call rfl ?_
  exact Script.account_bind (removeWorkers_account _ m) (collect_account found')

/-- **A finished job**: its workers are listed and deleted one after another, and then the job, if
its time has come. -/
theorem attend_terminal (found : m.jobs.get? job.name = some job)
    (terminal : job.status.phase.terminal) :
    r.attend job.name now clock m = ⟨.ok ((job.retention now).requeue now), m.wrappedUp job now,
      clearingCalls m job.name ++ collectCalls job now⟩ := by
  refine Script.account_call (MemoryStore.answer_getJob found) ?_
  dsimp only
  rw [if_pos terminal]
  exact finalize_account found

/-- **A job that is past its deadline** is read and written, and nothing else is asked. -/
theorem attend_late (found : m.jobs.get? job.name = some job) (late : job.pastDeadline now) :
    r.attend job.name now clock m =
      ⟨.ok .now, m.record job (job.status.fail job.timeoutMessage now),
        [.getJob job.name,
          .updateStatus { job with status := job.status.fail job.timeoutMessage now }]⟩ := by
  have alive := Job.terminal_of_pastDeadline late
  have hstep : job.step .missing now r.pacing =
      ⟨job.status.fail job.timeoutMessage now, .none, .now⟩ := if_pos late
  have hchanged : job.status.fail job.timeoutMessage now ≠ job.status := by
    intro heq
    rw [← heq] at alive
    cases alive
  have hreply := MemoryStore.updateStatus_eq found (job.status.fail job.timeoutMessage now)
  refine Script.account_call (MemoryStore.answer_getJob found) ?_
  dsimp only
  rw [alive, if_neg nofun, drive, if_pos late, hstep]
  show (write job _ none).account clock m = _
  rw [write, if_pos (by simpa using hchanged)]
  exact Script.account_call hreply rfl

end Reconciler

end JobOperator
