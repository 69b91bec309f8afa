import JobOperator.Proofs.Relational.Mirror
import JobOperator.Proofs.Relational.Reading
import JobOperator.Proofs.Store.Served
import Mathlib.Data.List.Forall2
import Mathlib.Data.List.Induction

/-!
# A database and a store in memory

* `Relational.Database.serve`: the transcript of calls to a database, which is sent the texts of the
  migrations first, and the texts of the statements with what they bind.
* `Relational.Database.serve_eq`: its answers are those of the two tables on which the statements
  are executed by what they mean (`Relational.Server.serve`).
* `Relational.Abreast`: what holds of two transcripts of the same calls and of what the stores are
  left with.
* `Relational.same_answers`: **every call is answered the same** by a store in a database and by a
  store in memory, if columns can hold what is asked for, and if jobs of different names have
  different uids.

The uids matter when a job is deleted. The tables let its workers go by its name, and the store in
memory by its uid.
-/

namespace JobOperator

/-- The same call, and the same answer. -/
inductive Script.Exchange.Agree : Exchange StoreCall StoreCall.Answer →
    Exchange StoreCall StoreCall.Answer → Prop where
  | intro (call : StoreCall) {a b : call.Answer} (h : call.Agree a b) : Agree ⟨call, a⟩ ⟨call, b⟩

/-- The version that has been written fits into its column. -/
def Script.Exchange.versionFits : Exchange StoreCall StoreCall.Answer → Bool
  | ⟨.updateStatus _, .ok written⟩ => written.resourceVersion.toNat ≤ Relational.greatest64
  | _ => true

/-- Why a call has been refused. -/
def Script.Exchange.error? : Exchange StoreCall StoreCall.Answer → Option StoreError
  | ⟨_, .error e⟩ => some e
  | ⟨_, .ok _⟩ => none

namespace Relational

variable {log log' : StoreTranscript} {m g : MemoryStore} {d : Server}

/-- One call more, with what the clock of the database's caller reads. -/
def Server.serveNext (served : StoreTranscript × Server) (call : Instant × StoreCall) :
    StoreTranscript × Server :=
  (served.1 ++ [⟨call.2, (respond call.1 call.2 served.2).1⟩], (respond call.1 call.2 served.2).2)

/-- The transcript of calls to a database whose tables are empty, and the tables after them. -/
def Server.serve (calls : List (Instant × StoreCall)) : StoreTranscript × Server :=
  calls.foldl serveNext ([], {})

/-- What a database answers to a store call, and its tables afterwards. -/
def Database.respond (clock : Instant) (call : StoreCall) (db : Database) :
    call.Answer × Database :=
  (Relational.answer clock call).perform answer db

/-- One call more, with what the clock of the database's caller reads. -/
def Database.serveNext (served : StoreTranscript × Database) (call : Instant × StoreCall) :
    StoreTranscript × Database :=
  (served.1 ++ [⟨call.2, (respond call.1 call.2 served.2).1⟩], (respond call.1 call.2 served.2).2)

/-- The transcript of calls to a database that was set up by the migrations, and the tables after
them. -/
def Database.serve (calls : List (Instant × StoreCall)) : StoreTranscript × Database :=
  calls.foldl serveNext ([], (migrate.perform answer []).2)

/-- The texts of the statements are answered by what the statements mean. -/
theorem Database.serve_eq (calls : List (Instant × StoreCall)) :
    serve calls = ((Server.serve calls).1, (Server.serve calls).2.tables) := by
  suffices hfold : ∀ served : StoreTranscript × Server,
      calls.foldl serveNext (served.1, served.2.tables) =
        ((calls.foldl Server.serveNext served).1, (calls.foldl Server.serveNext served).2.tables) by
    rw [serve, Server.migrate_perform]
    exact hfold ([], {})
  induction calls with
  | nil => exact fun _ => rfl
  | cons call calls ih =>
    intro served
    have hnext : serveNext (served.1, served.2.tables) call =
        ((Server.serveNext served call).1, (Server.serveNext served call).2.tables) := by
      rw [serveNext, respond, Server.perform_tables]
      rfl
    rw [List.foldl_cons, List.foldl_cons, hnext]
    exact ih _

/-- As a uid stands for one job, it tells the workers of a job as the name of the job does. -/
theorem attributed_of_served (h : MemoryStore.Served log m) (distinct : log.Distinct) :
    Attributed m := by
  intro name job found n worker hworker
  obtain ⟨hnamed, -, howned⟩ := h.inPlace
  obtain ⟨owner, howner, hsame⟩ := howned n worker hworker
  constructor
  · intro huid
    obtain rfl := h.eq_of_uid distinct howner found (hsame.trans huid)
    rw [← hnamed _ _ howner, hnamed _ _ found]
  · intro hname
    rw [hname, found] at howner
    rw [← hsame, Option.some.inj howner]

theorem Attributed.twin (h : Attributed m) (twin : m.Twin g) : Attributed g := by
  intro name job found n worker hworker
  rw [← twin.jobs] at found
  obtain ⟨-, habsent⟩ | ⟨w, w', hw, hw', same⟩ := twin.worker_cases n
  · cases habsent.symm.trans hworker
  · obtain rfl := Option.some.inj (hw'.symm.trans hworker)
    have howner : w.undated.owner = w'.undated.owner := congrArg Worker.owner same
    have hexpected := h name job found n w hw
    rwa [show w.owner = w'.owner from howner] at hexpected

/-- What holds of two transcripts of the same calls, and of what the stores are left with. -/
structure Abreast (log : StoreTranscript) (m : MemoryStore) (log' : StoreTranscript) (d : Server) :
    Prop where
  served : MemoryStore.Served log m
  agree : List.Forall₂ Script.Exchange.Agree log log'
  /-- the tables mirror a twin of the store -/
  mirrored : ∃ g, m.Twin g ∧ d.Mirrors g

namespace Abreast

theorem start : Abreast [] {} [] {} where
  served := .start
  agree := .nil
  mirrored := ⟨{}, .refl _, .empty, .empty⟩

/-- **One call more.** -/
theorem next (h : Abreast log m log' d) (distinct : log.Distinct) {here there : Instant}
    {call : StoreCall} (fits : CallFits there call)
    (version : Script.Exchange.versionFits ⟨call, (m.answer here call).1⟩ = true) :
    Abreast (log ++ [⟨call, (m.answer here call).1⟩]) (m.answer here call).2
      (log' ++ [⟨call, (d.respond there call).1⟩]) (d.respond there call).2 := by
  obtain ⟨hserved, hagree, g, htwin, hmirrors⟩ := h
  obtain ⟨hsame, htwin'⟩ := htwin.answer here (atRest there) call
  have hversions : ∀ job written, call = .updateStatus job → (g.updateStatus job).1 = .ok written →
      written.resourceVersion.toNat ≤ greatest64 := by
    rintro job written rfl hwritten
    rw [MemoryStore.answer, htwin.updateStatus job, hwritten] at version
    exact of_decide_eq_true version
  have hattributed := (attributed_of_served hserved distinct).twin htwin
  obtain ⟨hanswer, hmirrors'⟩ := hmirrors.inStep hattributed fits hversions
  exact ⟨hserved.call here call,
    List.rel_append hagree (.cons (.intro call (hsame.trans hanswer)) .nil), _, htwin', hmirrors'⟩

end Abreast

theorem Server.serve_append (calls : List (Instant × StoreCall)) (call : Instant × StoreCall) :
    serve (calls ++ [call]) = serveNext (serve calls) call := List.foldl_append ..

/-- What both stores are left with after any calls. -/
theorem abreast_serve (calls : List (Instant × Instant × StoreCall))
    (fits : ∀ c ∈ calls, CallFits c.2.1 c.2.2)
    (versions : ∀ x ∈ (MemoryStore.serve (calls.map fun c => (c.1, c.2.2))).1, x.versionFits)
    (distinct : (MemoryStore.serve (calls.map fun c => (c.1, c.2.2))).1.Distinct) :
    let served := MemoryStore.serve (calls.map fun c => (c.1, c.2.2))
    let served' := Server.serve (calls.map (·.2))
    Abreast served.1 served.2 served'.1 served'.2 := by
  induction calls using List.reverseRecOn with
  | nil => exact .start
  | append_singleton calls c ih =>
    simp only [List.map_append, List.map_cons, List.map_nil, MemoryStore.serve_append,
      Server.serve_append] at versions distinct ⊢
    have hbefore := ih (fun c hc => fits c (List.mem_append_left _ hc))
      (fun x hx => versions x (List.mem_append_left _ hx)) distinct.of_append
    exact hbefore.next distinct.of_append
      (fits c (List.mem_append_right _ (List.mem_singleton_self c)))
      (versions _ (List.mem_append_right _ (List.mem_singleton_self _)))

/-- **Every call is answered the same** by a store in a database and by a store in memory. The
database executes the texts that it is sent, from the migrations on. -/
theorem same_answers (calls : List (Instant × Instant × StoreCall))
    (fits : ∀ c ∈ calls, CallFits c.2.1 c.2.2)
    (versions : ∀ x ∈ (MemoryStore.serve (calls.map fun c => (c.1, c.2.2))).1, x.versionFits)
    (distinct : (MemoryStore.serve (calls.map fun c => (c.1, c.2.2))).1.Distinct) :
    List.Forall₂ Script.Exchange.Agree (MemoryStore.serve (calls.map fun c => (c.1, c.2.2))).1
      (Database.serve (calls.map (·.2))).1 := by
  rw [Database.serve_eq]
  exact (abreast_serve calls fits versions distinct).agree

/-- A job that is submitted twice, written twice from one reading, given a worker twice, and
deleted, upon which a worker is asked for again. -/
def rehearsed : List (Instant × Instant × StoreCall) :=
  let job := Cluster.bell.toJob (.ofNat 1) Stamp.origin
  let read : Job := { job with resourceVersion := 1, status := { phase := .pending } }
  let launch : Worker.Launch := ⟨"clapper", ⟨"bell", .ofNat 1⟩, { image := "aer:0.15" }⟩
  [.createJob job, .createJob job, .updateStatus read, .updateStatus read, .createWorker launch,
    .createWorker launch, .listWorkers none, .deleteJob "bell", .createWorker launch,
    .getWorker "clapper"].map (.ofSecond 1, Stamp.origin, ·)

theorem same_answers_rehearsed :
    (∀ c ∈ rehearsed, CallFits c.2.1 c.2.2) ∧
    (MemoryStore.serve (rehearsed.map fun c => (c.1, c.2.2))).1.map (·.error?) =
      [none, some (.alreadyExists .job "bell"), none, some (.conflict "bell" 1), none,
        some (.alreadyExists .worker "clapper"), none, none, some (.notFound .job "bell"),
        some (.notFound .worker "clapper")] ∧
    List.Forall₂ Script.Exchange.Agree
      (MemoryStore.serve (rehearsed.map fun c => (c.1, c.2.2))).1
      (Database.serve (rehearsed.map (·.2))).1 := by
  have horigin : Held Stamp.origin := ⟨⟨0⟩, by decide, by decide⟩
  have hname : ∀ name, textual name = true ∧ name.length ≤ nameWidth → NameFits name :=
    fun _ h => ⟨h.1, h.2⟩
  have hbell : NameFits "bell" := hname _ (by decide)
  have hclapper : NameFits "clapper" := hname _ (by decide)
  have hnone : (0 : UInt32).toNat ≤ greatest32 := by decide
  have hstatus : ∀ phase, StatusFits { phase } := fun _ => ⟨⟨hnone, nofun, nofun⟩, nofun, nofun⟩
  have hjob : JobTextual Cluster.bell.spec :=
    ⟨by decide, by decide, by decide, ⟨nofun, nofun⟩, ⟨nofun, nofun⟩⟩
  have hlaunch : WorkerTextual { image := "aer:0.15" } :=
    ⟨by decide, nofun, nofun, ⟨nofun, nofun⟩, ⟨nofun, nofun⟩⟩
  have hfits : ∀ c ∈ rehearsed, CallFits c.2.1 c.2.2 := by
    simp only [rehearsed, List.map_cons, List.map_nil, List.forall_mem_cons]
    have hone : (1 : UInt64).toNat ≤ greatest64 := by decide
    have hclock : (Stamp.ofInstant Stamp.origin).InRange := by decide
    exact ⟨⟨hbell, horigin, hjob, hstatus .unstarted⟩, ⟨hbell, horigin, hjob, hstatus .unstarted⟩,
      ⟨hbell, hstatus .pending, hone⟩, ⟨hbell, hstatus .pending, hone⟩,
      ⟨hclapper, hbell, hlaunch, hclock⟩, ⟨hclapper, hbell, hlaunch, hclock⟩, nofun, hbell,
      ⟨hclapper, hbell, hlaunch, hclock⟩, hclapper, List.forall_mem_nil _⟩
  have hdistinct : (MemoryStore.serve (rehearsed.map fun c => (c.1, c.2.2))).1.Distinct :=
    StoreTranscript.distinct_of_created (by decide +kernel)
  have hversions : ((MemoryStore.serve (rehearsed.map fun c => (c.1, c.2.2))).1.all
      (·.versionFits)) = true := by decide +kernel
  exact ⟨hfits, by decide +kernel,
    same_answers rehearsed hfits (List.all_eq_true.mp hversions) hdistinct⟩

end Relational

end JobOperator
