import JobOperator.Proofs.Cluster.History
import JobOperator.Proofs.Worker.Name

/-!
# Where workers come from

Whoever is told that a worker is there already takes it over without asking whose it is.
This is sound for a reason that lies outside of the call: every worker that is stored was
once asked for by an invocation, for the very attempt that its name tells.

* `Cluster.AskedFor`: the invocation has asked for the worker, for the attempt that it has
  read. `Cluster.Run.askedFor`: there is such an invocation for every worker.
* `Cluster.Run.retries_le`: what was read of an incarnation is at no later attempt than
  what is stored.
* `Cluster.workers_placed`: hence a worker belongs to an attempt at its owner that was
  reached, has the specification of this attempt, and is the one that was wanted if it is
  **taken over**.
-/

namespace JobOperator

/-- A request for a worker is made of the incarnation and the attempt, and of nothing else. -/
theorem Worker.Template.launch_congr (t : Worker.Template) {a b : Job} (h : a.SameIdentity b)
    (hretries : b.status.retries = a.status.retries) : t.launch b = t.launch a := by
  unfold launch nameOf env labels
  rw [h.name, h.uid, h.spec, hretries]

/-- The job as it is at one of its attempts. -/
def Job.atAttempt (job : Job) (k : UInt32) : Job :=
  { job with status := { job.status with retries := k } }

namespace Cluster

/-- The invocation has asked for the worker, for the attempt at the job that it has read. -/
structure AskedFor (t : Worker.Template) (c : Cluster) (inv : Invocation) (read : Job)
    (worker : Worker) : Prop where
  known : inv ∈ c.invocations
  first : Reconciler.HasRead inv.job inv.log read
  asked : ∃ reply, ⟨.createWorker (t.launch read), reply⟩ ∈ inv.log
  named : worker.name = Worker.nameOf read
  owner : worker.owner = ⟨read.name, read.uid⟩
  spec : worker.spec = (t.launch read).spec

variable {t : Worker.Template} {allowed : Event → Prop} {c c' : Cluster} {e : Event}
  {inv : Invocation} {read job : Job} {worker : Worker}

/-- A worker that was asked for has been asked for, whatever its host reports of it since. -/
theorem AskedFor.mono (h : AskedFor t c inv read worker) (hstep : c.next t e = some c')
    (phase : Worker.Phase) : ∃ inv', AskedFor t c' inv' read { worker with phase } := by
  obtain ⟨i, hi⟩ := List.mem_iff_getElem?.mp h.known
  obtain ⟨inv', hinv', hcont⟩ := next_invocations hstep hi
  obtain ⟨more, hmore⟩ := hcont.log
  obtain ⟨reply, hasked⟩ := h.asked
  refine ⟨inv', List.mem_of_getElem? hinv', ?_, ⟨reply, ?_⟩, h.named, h.owner, h.spec⟩
  · rw [hcont.job, ← hmore]
    exact h.first.append more
  · rw [← hmore]
    exact List.mem_append_left _ hasked

/-- **Every worker was asked for**, by an invocation that has read the job at this attempt. -/
theorem Run.askedFor (h : Run t allowed c) {n : String}
    (hw : c.store.workers.get? n = some worker) : ∃ inv read, AskedFor t c inv read worker := by
  induction h generalizing n worker with
  | start => cases hw
  | @next c c' e before _ step ih =>
    have hold : ∀ {n : String} {w : Worker} (phase : Worker.Phase),
        c.store.workers.get? n = some w →
          ∃ inv read, AskedFor t c' inv read { w with phase } := by
      intro n w phase hw
      obtain ⟨inv, read, hasked⟩ := ih hw
      obtain ⟨inv', hasked'⟩ := hasked.mono step phase
      exact ⟨inv', read, hasked'⟩
    rcases next_cases step with ⟨hstores, -⟩ | ⟨-, -, call, horigin, hchange⟩
    · rw [(List.cons.inj hstores).1] at hw
      exact hold worker.phase hw
    generalize c'.store = s at hchange hw
    cases hchange with
    | nothing | submitted | written => exact hold worker.phase hw
    | withdrawn => exact hold worker.phase (MemoryStore.get?_of_filter hw).1
    | lost =>
      rw [Table.get?_erase] at hw
      split at hw
      · cases hw
      · exact hold worker.phase hw
    | reported _ phase found =>
      rw [Table.get?_insert] at hw
      split at hw
      · obtain rfl := Option.some.inj hw
        exact hold phase found
      · exact hold worker.phase hw
    | launched launch clock =>
      rw [Table.get?_insert] at hw
      split at hw
      · obtain rfl := Option.some.inj hw
        -- only invocations ask for workers
        cases horigin with
        | @turned i _ _ inv _ resume reply before' rest after _ =>
          obtain ⟨read, hread, -, -, -, rfl⟩ :=
            (before.sound.coherent _ (List.mem_of_getElem? before')).rule rest
          exact ⟨_, read, List.mem_of_getElem? after, hread.append _,
            ⟨reply, List.mem_append_right _ (List.mem_singleton.mpr rfl)⟩, rfl, rfl, rfl⟩
      · exact hold worker.phase hw

/-- Whatever was recorded of an incarnation is at no later attempt than what is stored. -/
theorem Run.retries_le (h : Run t allowed c) (hu : c.Unwrapped job.uid) {name : String}
    (found : c.store.jobs.get? name = some job) {old : Job} (hrec : c.Recorded old)
    (huid : old.uid = job.uid) : old.status.retries ≤ job.status.retries := by
  have hmem := h.sound.mem_records.mpr ⟨hrec, huid⟩
  obtain ⟨older, holder⟩ := h.sound.records_of_store found
  have hchain := (h.isChain_records hu).1
  rw [holder] at hchain hmem
  have hle : ((job :: older).map (·.status.retries)).IsChain (· ≥ ·) := by
    refine (List.isChain_map _).mpr (hchain.imp fun a b hab => ?_)
    rcases hab with rfl | hsucc
    · exact UInt32.le_refl _
    · exact hsucc.precedes.retries
  rcases List.mem_cons.mp hmem with rfl | hmem
  · exact UInt32.le_refl _
  · exact (List.pairwise_cons.mp hle.pairwise).1 _ (List.mem_map.mpr ⟨old, hmem, rfl⟩)

/-- What an invocation has asked for and what is stored are the same incarnation. -/
theorem Sound.owner_of_askedFor (h : Sound t c) (hasked : AskedFor t c inv read worker) {n : String}
    (hw : c.store.workers.get? n = some worker) :
    ∃ job, c.store.jobs.get? worker.owner.name = some job ∧ read.SameIdentity job ∧
      c.Recorded read := by
  obtain ⟨job, hjob, huid⟩ := (h.consistent_now.placed n _ hw).owned
  have hrec := (h.read hasked.known hasked.first).1
  rw [hasked.owner] at huid
  exact ⟨job, hjob, h.same read job hrec (.of_store hjob) huid, hrec⟩

/-- There are no workers of attempts that the job has not reached. -/
theorem Run.reached (h : Run t allowed c) (hu : ∀ uid, c.Unwrapped uid)
    (found : c.store.jobs.get? name = some job) {k : UInt32} {worker : Worker}
    (hw : c.store.workers.get? (Worker.nameFor name k) = some worker) :
    k ≤ job.status.retries := by
  have hs := h.sound
  have hcons := hs.consistent_now
  obtain ⟨inv, read, hasked⟩ := h.askedFor hw
  obtain ⟨owner, howner, hsame, hrec⟩ := hs.owner_of_askedFor hasked hw
  rw [hcons.owner_of_name hw] at howner
  obtain rfl := Option.some.inj (found.symm.trans howner)
  have hname := (hcons.placed _ worker hw).named.symm.trans hasked.named
  obtain ⟨-, rfl⟩ := Worker.nameFor_inj (hname : _ = Worker.nameFor read.name read.status.retries)
  exact h.retries_le (hu job.uid) found hrec hsame.uid.symm

/-- The worker that is in the way of a request is the one that was asked for. -/
theorem Run.taken (h : Run t allowed c) (hinv : inv ∈ c.invocations) {launch : Worker.Launch}
    {resume : Except StoreError Worker → StoreScript (Except ReconcileError Requeue)}
    (hrest : inv.rest = some (.ask (.createWorker launch) resume)) {clock : Instant}
    {e : StoreError} (hrefused : (c.store.createWorker clock launch).1 = .error e)
    (htaken : e.isAlreadyExists) :
    ∃ read worker, Reconciler.HasRead inv.job inv.log read ∧ launch = t.launch read ∧
      c.store.workers.get? (Worker.nameOf read) = some worker ∧
      worker.owner = ⟨read.name, read.uid⟩ ∧ worker.spec = launch.spec := by
  have hs := h.sound
  obtain ⟨read, hread, -, -, -, rfl⟩ := (hs.coherent inv hinv).rule hrest
  unfold MemoryStore.createWorker at hrefused
  split at hrefused
  · next halive =>
    split at hrefused
    · next hcontains =>
      obtain ⟨worker, hw⟩ := Option.isSome_iff_exists.mp hcontains
      obtain ⟨owner, howner, huid⟩ := (Option.any_eq_true _ _).mp halive
      obtain ⟨inv', read', hasked⟩ := h.askedFor hw
      obtain ⟨job, hjob, hsame, -⟩ := hs.owner_of_askedFor hasked hw
      -- its name tells the job and the attempt
      have hplaced := hs.consistent_now.placed _ worker hw
      obtain ⟨hname, hretries⟩ := Worker.nameFor_inj (hasked.named.symm.trans hplaced.named)
      rw [hasked.owner, hname] at hjob
      obtain rfl := Option.some.inj (howner.symm.trans hjob)
      have huid : owner.uid = read.uid := of_decide_eq_true huid
      have hread' := hs.same read owner (hs.read hinv hread).1 (.of_store howner) huid
      have hsame := hsame.trans hread'.symm
      refine ⟨read, worker, hread, rfl, hw, ?_, ?_⟩
      · rw [hasked.owner, hsame.name, hsame.uid]
      · rw [hasked.spec, ← t.launch_congr hsame hretries.symm]
        rfl
    · cases hrefused
  · obtain rfl := Except.error.inj hrefused
    cases htaken

/-- **Workers are in their place.** A stored worker belongs to an attempt at its owner that the
owner has reached, and has the specification of this attempt. If an invocation is told that
the worker that it asks for is there already, this is a worker of the incarnation and the
attempt that it has read, and with the specification that it would have launched. -/
theorem workers_placed (h : Reachable t c) (hu : ∀ uid, c.Unwrapped uid) :
    (∀ n worker, c.store.workers.get? n = some worker →
      ∃ job k, c.store.jobs.get? worker.owner.name = some job ∧ job.name = worker.owner.name ∧
        job.uid = worker.owner.uid ∧ k ≤ job.status.retries ∧
        job.status.retries ≤ job.spec.maxRetries ∧ n = worker.name ∧
        worker.name = Worker.nameFor job.name k ∧
        worker.spec = (t.launch (job.atAttempt k)).spec) ∧
    ∀ inv ∈ c.invocations, ∀ (launch : Worker.Launch)
      (resume : Except StoreError Worker → StoreScript (Except ReconcileError Requeue))
      (clock : Instant) (e : StoreError), inv.rest = some (.ask (.createWorker launch) resume) →
      (c.store.createWorker clock launch).1 = .error e → e.isAlreadyExists →
      ∃ read worker, Reconciler.HasRead inv.job inv.log read ∧ launch = t.launch read ∧
        c.store.workers.get? (Worker.nameOf read) = some worker ∧
        worker.owner = ⟨read.name, read.uid⟩ ∧ worker.spec = launch.spec := by
  have hs := h.sound
  refine ⟨fun n worker hw => ?_, fun inv hinv launch resume clock e hrest hrefused htaken =>
    h.taken hinv hrest hrefused htaken⟩
  have hplaced := hs.consistent_now.placed n worker hw
  obtain ⟨inv, read, hasked⟩ := h.askedFor hw
  obtain ⟨job, hjob, hsame, hrec⟩ := hs.owner_of_askedFor hasked hw
  refine ⟨job, read.status.retries, hjob, ?_, ?_,
    h.retries_le (hu job.uid) hjob hrec hsame.uid.symm, (hs.lawful job (.of_store hjob)).within,
    hplaced.named.symm, ?_, ?_⟩
  · rw [hsame.name, hasked.owner]
  · rw [hsame.uid, hasked.owner]
  · rw [hasked.named, hsame.name]
    rfl
  · rw [hasked.spec, ← t.launch_congr (b := job.atAttempt read.status.retries)
      ⟨hsame.name, hsame.uid, hsame.createdAt, hsame.spec⟩ rfl]

/-- The job is at its second attempt, and nobody has deleted the failed worker of the first one:
it was refused to the third invocation, and the fifth one is told of a time when there were no
workers, as is the sixth. The fifth one is cut short after it has asked for the second worker,
and the sixth one is about to ask for it again. -/
def handedOver : List Event :=
  [.submit bell (.ofNat 1) (.ofSecond 0), .start "bell" (.ofSecond 1) {}] ++ turns 0 2 ++
    [.start "bell" (.ofSecond 2) {}] ++ turns 1 4 ++ [.start "bell" (.ofSecond 3) {}] ++ turns 2 4 ++
    [.report "bell-worker-0" .failed, .start "bell" (.ofSecond 4) {}] ++ turns 3 3 ++
    [.turn 3 (.ofSecond 4) (.refused (.transient "timeout")), .start "bell" (.ofSecond 5) {}] ++
    turns 4 1 ++ [.turn 4 (.ofSecond 5) (.stale 13)] ++ turns 4 1 ++
    [.cut 4, .start "bell" (.ofSecond 6) {}] ++ turns 5 1 ++ [.turn 5 (.ofSecond 6) (.stale 16)]

theorem workers_placed_handedOver : ∃ c inv old launch resume, Reachable {} c ∧
    (∀ uid, c.Unwrapped uid) ∧ c.store.workers.get? "bell-worker-0" = some old ∧
    inv ∈ c.invocations ∧ inv.rest = some (.ask (.createWorker launch) resume) ∧
    (c.store.createWorker (.ofSecond 6) launch).1 =
      .error (.alreadyExists .worker "bell-worker-1") ∧
    (∃ job k, c.store.jobs.get? old.owner.name = some job ∧ k ≤ job.status.retries ∧
      old.name = Worker.nameFor job.name k ∧
      old.spec = (Worker.Template.launch {} (job.atAttempt k)).spec) ∧
    ∃ read worker, Reconciler.HasRead inv.job inv.log read ∧
      c.store.workers.get? (Worker.nameOf read) = some worker ∧
      worker.owner = ⟨read.name, read.uid⟩ ∧ worker.spec = launch.spec := by
  have hreach : Reachable {} (outcome {} handedOver) := .outcome fun _ _ => trivial
  have hu : ∀ uid, (outcome {} handedOver).Unwrapped uid :=
    fun uid => hreach.unwrapped (by decide +kernel)
  have hold : (outcome {} handedOver).store.workers.get? "bell-worker-0" =
      some (((outcome {} handedOver).store.workers.get? "bell-worker-0").get rfl) := rfl
  have hinv : ((outcome {} handedOver).invocations[5]?).get rfl ∈
      (outcome {} handedOver).invocations := List.mem_of_getElem? (i := 5) rfl
  obtain ⟨hplaced, htaken⟩ := workers_placed hreach hu
  obtain ⟨job, k, hjob, -, -, hk, -, -, hname, hspec⟩ := hplaced _ _ hold
  obtain ⟨read, worker, hread, -, hworker, howner, hspec'⟩ :=
    htaken _ hinv _ _ (.ofSecond 6) (.alreadyExists .worker "bell-worker-1") rfl rfl rfl
  exact ⟨_, _, _, _, _, hreach, hu, hold, hinv, rfl, rfl, ⟨job, k, hjob, hk, hname, hspec⟩,
    read, worker, hread, hworker, howner, hspec'⟩

end Cluster

end JobOperator
