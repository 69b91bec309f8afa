import JobOperator.Proofs.Cluster.Records
import JobOperator.Proofs.Worker.Name

/-!
# What an invocation takes away

An invocation deletes by name, and what bears a name may change between its reading and its
deletion. The names themselves are safe: whatever the grounds for which it deletes a worker,
it is one of the job of the name that it has read (`Cluster.Sound.removes`). So all that is
taken away belongs to the incarnation that is stored under this name at this moment.

* `MemoryStore.Loses`: the incarnations that lose records by a change.
* `Cluster.Sound.loses`: they are those stored under the name that was read.
* `Cluster.removal_isolated_iff`: hence an invocation takes nothing from another incarnation
  than the one it has read **exactly when this one is still stored**. A job that was deleted
  and submitted again in the meantime is not spared (`Cluster.removal_not_isolated`).
-/

namespace JobOperator

/-- The incarnations that lose a record by a change of the store. -/
inductive MemoryStore.Loses (m m' : MemoryStore) : Owner → Prop where
  | job {name : String} {job : Job} (stored : m.jobs.get? name = some job)
      (gone : m'.jobs.get? name = none) : Loses m m' ⟨job.name, job.uid⟩
  | worker {name : String} {worker : Worker} (stored : m.workers.get? name = some worker)
      (gone : m'.workers.get? name = none) : Loses m m' worker.owner

namespace MemoryStore

/-- Nobody loses anything if nothing changes. -/
theorem Loses.irrefl {m : MemoryStore} {owner : Owner} (hl : m.Loses m owner) : False := by
  cases hl with
  | job stored gone | worker stored gone =>
    rw [stored] at gone
    cases gone

/-- Whoever loses a record is stored. -/
theorem Loses.owner {m m' : MemoryStore} {owner : Owner} (hm : m.Consistent)
    (hl : m.Loses m' owner) : ∃ job, m.jobs.get? owner.name = some job ∧ job.uid = owner.uid := by
  cases hl with
  | @job name job stored _ =>
    refine ⟨job, ?_, rfl⟩
    rw [hm.named name job stored]
    exact stored
  | worker stored _ => exact (hm.placed _ _ stored).owned

/-- Records go away only by a deletion: of a job, with its workers, or of a worker. -/
theorem Change.loses {m m' : MemoryStore} {call : StoreCall} {owner : Owner}
    (hc : m.Change call m') (hl : m.Loses m' owner) :
    (∃ name job, call = .deleteJob name ∧ m.jobs.get? name = some job ∧ job.uid = owner.uid) ∨
      ∃ name worker, call = .deleteWorker name ∧ m.workers.get? name = some worker ∧
        worker.owner = owner ∧ m'.jobs = m.jobs := by
  cases hc with
  | nothing => exact hl.irrefl.elim
  | submitted | written =>
    cases hl with
    | job stored gone => exact absurd gone (get?_insert_ne_none stored)
    | worker stored gone =>
      rw [stored] at gone
      cases gone
  | launched | reported =>
    cases hl with
    | job stored gone =>
      rw [stored] at gone
      cases gone
    | worker stored gone => exact absurd gone (get?_insert_ne_none stored)
  | @withdrawn name job found =>
    refine .inl ⟨name, job, rfl, found, ?_⟩
    cases hl with
    | job stored gone =>
      rw [Table.get?_erase] at gone
      split at gone
      · next hname =>
        rw [← hname, found] at stored
        rw [Option.some.inj stored]
      · rw [stored] at gone
        cases gone
    | worker stored gone =>
      rw [Table.get?_filter, stored, Option.filter_eq_none_iff] at gone
      have hkeep := gone _ rfl
      exact (by simpa using hkeep : _ = job.uid).symm
  | lost name found =>
    cases hl with
    | job stored gone =>
      rw [stored] at gone
      cases gone
    | worker stored gone =>
      rw [Table.get?_erase] at gone
      split at gone
      · next hname => exact .inr ⟨name, _, rfl, hname ▸ stored, rfl, rfl⟩
      · rw [stored] at gone
        cases gone

end MemoryStore

namespace Cluster

variable {t : Worker.Template} {c c' : Cluster} {inv : Invocation} {read : Job}

/-- The worker that a lawful job deletes for another attempt is the one of this attempt. -/
theorem retried_name (hlawful : read.Lawful) {seen : Observation} {now : Instant} {s : Job.Status}
    {n : String} (ht : read.Transition seen now s (.delete n)) : n = Worker.nameOf read := by
  cases ht with
  | retried => exact hlawful.getD_workerRef

/-- A worker that was listed for a job is named after an attempt at it. -/
theorem Sound.listed (h : Sound t c) (hinv : inv ∈ c.invocations) {owner : String}
    {workers : List Worker} {worker : Worker}
    (hlist : ⟨.listWorkers (some owner), .ok workers⟩ ∈ inv.log) (hmem : worker ∈ workers) :
    ∃ k, worker.name = Worker.nameFor owner k := by
  obtain ⟨s, hs, clock, heq⟩ := (h.coherent inv hinv).heard _ _ hlist
  obtain rfl := Except.ok.inj heq
  obtain ⟨rfl, name, hworker⟩ := MemoryStore.mem_listWorkers hmem
  have hplaced := (h.consistent s hs).placed name worker hworker
  obtain ⟨k, hk⟩ := hplaced.attempt
  exact ⟨k, hplaced.named.trans hk⟩

/-- A worker that was created is the one of the attempt that it was asked for. -/
theorem Sound.created (h : Sound t c) (hinv : inv ∈ c.invocations) {launch : Worker.Launch}
    {worker : Worker} (hcreate : ⟨.createWorker launch, .ok worker⟩ ∈ inv.log) :
    worker.name = launch.name := by
  obtain ⟨s, _, clock, heq⟩ := (h.coherent inv hinv).heard _ _ hcreate
  rw [MemoryStore.createWorker_eq_ok heq]
  rfl

/-- Whatever the grounds for it, a worker is deleted by the name of an attempt at the job
that was read. -/
theorem Sound.removes (h : Sound t c) (hinv : inv ∈ c.invocations)
    (hread : Reconciler.HasRead inv.job inv.log read) {n : String}
    (hrem : (inv.reconciler t).Removes inv.now inv.log read n) :
    ∃ k, n = Worker.nameFor read.name k := by
  cases hrem with
  | superseded _ listed mem _ => exact h.listed hinv listed mem
  | residual _ listed mem _ => exact h.listed hinv listed mem
  | rolledBack last _ =>
    refine ⟨read.status.retries,
      h.created hinv (?_ : ⟨.createWorker (t.launch read), .ok _⟩ ∈ inv.log)⟩
    rw [last]
    exact List.mem_append_right _ (List.mem_cons_self ..)
  | @retried _ seen _ _ _ _ effect =>
    have ht := read.step_transition seen inv.now inv.pacing
    rw [show (read.step seen inv.now inv.pacing).effect = .delete n from effect] at ht
    exact ⟨read.status.retries, retried_name (h.lawful read (h.read hinv hread).1) ht⟩

/-- The grounds on which an invocation takes records away: the job that it has read has
finished and has expired, or it deletes a worker. -/
theorem Sound.loses_cases (h : Sound t c) {i : Nat} (hinv : c.invocations[i]? = some inv)
    (hread : Reconciler.HasRead inv.job inv.log read) {clock : Instant} {fate : Fate}
    (hstep : c.next t (.turn i clock fate) = some c') {owner : Owner}
    (hloses : c.store.Loses c'.store owner) :
    (∃ job, c.store.jobs.get? read.name = some job ∧ job.uid = owner.uid ∧
      read.status.phase.terminal ∧ read.retention inv.now = .expired) ∨
      ∃ name worker, c.store.workers.get? name = some worker ∧ worker.owner = owner ∧
        (inv.reconciler t).Removes inv.now inv.log read name ∧ c'.store.jobs = c.store.jobs := by
  rcases next_cases hstep with ⟨hstores, -⟩ | ⟨-, -, call, horigin, hchange⟩
  · rw [(List.cons.inj hstores).1] at hloses
    exact hloses.irrefl.elim
  cases horigin with
  | turned before rest _ _ =>
    obtain rfl := Option.some.inj (hinv.symm.trans before)
    have hrule := (h.coherent inv (List.mem_of_getElem? hinv)).rule rest
    rcases hchange.loses hloses with
      ⟨name, job, rfl, found, huid⟩ | ⟨name, worker, rfl, found, howner, hjobs⟩
    · obtain ⟨read', hread', rfl, hterminal, hexpired⟩ := hrule
      obtain rfl := hread.unique hread'
      exact .inl ⟨job, found, huid, hterminal, hexpired⟩
    · obtain ⟨read', hread', hrem⟩ := hrule
      obtain rfl := hread.unique hread'
      exact .inr ⟨name, worker, found, howner, hrem, hjobs⟩

/-- What an invocation takes away belongs to the job that is stored under the name that it
has read. -/
theorem Sound.loses (h : Sound t c) {i : Nat} (hinv : c.invocations[i]? = some inv)
    (hread : Reconciler.HasRead inv.job inv.log read) {clock : Instant} {fate : Fate}
    (hstep : c.next t (.turn i clock fate) = some c') {owner : Owner}
    (hloses : c.store.Loses c'.store owner) :
    owner.name = read.name ∧
      ∃ job, c.store.jobs.get? read.name = some job ∧ job.uid = owner.uid := by
  have hstore : c.store ∈ c.stores := List.mem_cons_self ..
  have hcons := h.consistent c.store hstore
  obtain ⟨job, hjob, huid⟩ := hloses.owner hcons
  have hname : owner.name = read.name := by
    rcases h.loses_cases hinv hread hstep hloses with
      ⟨gone, found, hgone, -⟩ | ⟨name, worker, found, rfl, hrem, -⟩
    · -- a job goes with its workers, and they have its uid
      obtain rfl := h.unique hstore found hjob (huid.trans hgone.symm)
      rw [← hcons.named _ _ hjob, ← hcons.named _ _ found]
    · obtain ⟨k, hk⟩ := h.removes (List.mem_of_getElem? hinv) hread hrem
      obtain ⟨k', hk'⟩ := (hcons.placed name worker found).attempt
      exact (Worker.nameFor_inj (hk'.symm.trans hk)).1
  rw [hname] at hjob
  exact ⟨hname, job, hjob, huid⟩

/-- An invocation deletes a job only if the record that it has read under this name has
finished and has expired. -/
theorem Sound.collected (h : Sound t c) {i : Nat} (hinv : c.invocations[i]? = some inv)
    (hread : Reconciler.HasRead inv.job inv.log read) {clock : Instant} {fate : Fate}
    (hstep : c.next t (.turn i clock fate) = some c') {name : String} {job : Job}
    (stored : c.store.jobs.get? name = some job) (gone : c'.store.jobs.get? name = none) :
    name = read.name ∧ read.status.phase.terminal ∧ read.retention inv.now = .expired := by
  have hloses := MemoryStore.Loses.job stored gone
  have hname := (h.consistent c.store (List.mem_cons_self ..)).named name job stored
  refine ⟨hname.symm.trans (h.loses hinv hread hstep hloses).1, ?_⟩
  rcases h.loses_cases hinv hread hstep hloses with ⟨-, -, -, hgrounds⟩ | ⟨-, -, -, -, -, hjobs⟩
  · exact hgrounds
  · rw [hjobs, stored] at gone
    cases gone

/-- **Isolation, as far as it goes.** An invocation takes away records of the incarnation that
it has read, and no others, exactly if this one is still stored when it does so. -/
theorem removal_isolated_iff (h : Reachable t c) {i : Nat} (hinv : c.invocations[i]? = some inv)
    (hread : Reconciler.HasRead inv.job inv.log read) {clock : Instant} {fate : Fate}
    (hstep : c.next t (.turn i clock fate) = some c') {owner : Owner}
    (hloses : c.store.Loses c'.store owner) :
    owner = ⟨read.name, read.uid⟩ ↔
      ∃ job, c.store.jobs.get? read.name = some job ∧ job.uid = read.uid := by
  obtain ⟨hname, job, hjob, huid⟩ := h.sound.loses hinv hread hstep hloses
  constructor
  · rintro rfl
    exact ⟨job, hjob, huid⟩
  · rintro ⟨job', hjob', huid'⟩
    rw [hjob] at hjob'
    obtain rfl := Option.some.inj hjob'
    obtain ⟨name, uid⟩ := owner
    rw [← hname, ← huid', huid]

/-- A job that is given a second, and is not kept once it has finished. -/
def flash : Job.Submission where
  name := "flash"
  spec := { bell.spec with timeoutSeconds := 1, ttlSecondsAfterFinished := some 0 }

/-- An invocation is about to delete a job that has failed and has expired. -/
def overdue : List Event :=
  [.submit flash (.ofNat 1) (.ofSecond 0), .start "flash" (.ofSecond 1) {}] ++ turns 0 2 ++
    [.start "flash" (.ofSecond 10) {}] ++ turns 1 2 ++
    [.start "flash" (.ofSecond 20) {}] ++ turns 2 2

/-- The job is deleted and submitted again at this moment. -/
def replaced : List Event :=
  overdue ++ [.withdraw "flash", .submit flash (.ofNat 2) (.ofSecond 20)]

/-- The record that the last invocation has read. -/
def overdueFlash : Job where
  name := "flash"
  uid := .ofNat 1
  resourceVersion := 3
  createdAt := .ofSecond 0
  spec := flash.spec
  status := {
    phase := .failed
    startTime := some (.ofSecond 1)
    completionTime := some (.ofSecond 10)
    errorMessage := some "Job exceeded timeout of 1 seconds" }

theorem removal_isolated_overdue : ∃ c c' inv, Reachable {} c ∧ c.invocations[2]? = some inv ∧
    Reconciler.HasRead inv.job inv.log overdueFlash ∧
    c.next {} (.turn 2 (.ofSecond 0) .answered) = some c' ∧
    c.store.Loses c'.store ⟨"flash", .ofNat 1⟩ ∧
    ∃ job, c.store.jobs.get? "flash" = some job ∧ job.uid = .ofNat 1 := by
  have hreach : Reachable {} (outcome {} overdue) := .outcome fun _ _ => trivial
  have hinv : (outcome {} overdue).invocations[2]? =
      some (((outcome {} overdue).invocations[2]?).get rfl) := rfl
  have hstep : (outcome {} overdue).next {} (.turn 2 (.ofSecond 0) .answered) =
      some (outcome {} (overdue ++ turns 2 1)) := rfl
  have hstored : (outcome {} overdue).store.jobs.get? "flash" = some overdueFlash := rfl
  have hgone : (outcome {} (overdue ++ turns 2 1)).store.jobs.get? "flash" = none := rfl
  exact ⟨_, _, _, hreach, hinv, rfl, hstep, .job hstored hgone,
    (removal_isolated_iff hreach hinv rfl hstep (.job hstored hgone)).mp rfl⟩

/-- **An invocation does not spare another incarnation**: it deletes a job that has been
submitted again after it has read the one before. -/
theorem removal_not_isolated : ¬ ∀ (c c' : Cluster) (i : Nat) (inv : Invocation) (read : Job)
    (clock : Instant) (fate : Fate) (owner : Owner), Reachable {} c → c.invocations[i]? = some inv →
    Reconciler.HasRead inv.job inv.log read → c.next {} (.turn i clock fate) = some c' →
    c.store.Loses c'.store owner → owner.uid = read.uid := by
  intro h
  have hstored : (outcome {} replaced).store.jobs.get? "flash" =
      some { flash.toJob (.ofNat 2) (.ofSecond 20) with resourceVersion := 1 } := rfl
  have hgone : (outcome {} (replaced ++ turns 2 1)).store.jobs.get? "flash" = none := rfl
  have hlost := h (outcome {} replaced) (outcome {} (replaced ++ turns 2 1)) 2 _ overdueFlash
    (.ofSecond 0) .answered ⟨"flash", .ofNat 2⟩ (.outcome fun _ _ => trivial) rfl rfl rfl
    (.job hstored hgone)
  exact absurd hlost (by decide)

end Cluster

end JobOperator
