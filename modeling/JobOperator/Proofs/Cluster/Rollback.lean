import JobOperator.Proofs.Cluster.Removal

/-!
# The loser of a race

An invocation that has created a worker and then finds that another one was first to write
the status takes its worker back. It takes back whatever bears the name; and the other one
may have asked for the same worker in the meantime, have been told that there is one, and
have recorded its name.

* `Invocation.Met`: the invocation has been told that a worker is there.
* `Cluster.Run.told`: in a smooth run, whoever has written the stored status knows it.
* `Cluster.rollback_robs_iff`: the loser takes a worker away from the job **exactly when**
  another invocation, which has met this worker, has won with a status of the same attempt
  that names it, and this status is the one that is stored.
* `Cluster.rollback_robs`: this happens.
-/

namespace JobOperator

/-- The invocation has been told that there is a worker of this name. -/
inductive Invocation.Met (inv : Invocation) : String → Prop where
  | created {launch : Worker.Launch} {worker : Worker}
      (told : ⟨.createWorker launch, .ok worker⟩ ∈ inv.log) : Met inv launch.name
  | exists {launch : Worker.Launch} {e : StoreError} (taken : e.isAlreadyExists)
      (told : ⟨.createWorker launch, .error e⟩ ∈ inv.log) : Met inv launch.name
  | found {name : String} {worker : Worker} (told : ⟨.getWorker name, .ok worker⟩ ∈ inv.log) :
      Met inv name

/-- The change takes a worker away, and a stored job names it. -/
def MemoryStore.Robs (m m' : MemoryStore) (worker : String) : Prop :=
  (m.workers.get? worker).isSome ∧ m'.workers.get? worker = none ∧
    ∃ name job, m'.jobs.get? name = some job ∧ job.status.workerRef = some worker

namespace Cluster

variable {t : Worker.Template} {c c' : Cluster} {inv : Invocation} {written job : Job}
  {n : String}

/-- Where in its transcript an invocation has written a status. -/
theorem Sound.wrote (h : Sound t c) (hinv : inv ∈ c.invocations) {reply : Except StoreError Job}
    (hlog : ⟨.updateStatus written, reply⟩ ∈ inv.log) :
    ∃ before after, inv.log = before ++ ⟨.updateStatus written, reply⟩ :: after ∧
      (inv.reconciler t).Rule inv.job inv.now before (.updateStatus written) := by
  obtain ⟨before, after, hsplit⟩ := List.append_of_mem hlog
  exact ⟨before, after, hsplit, (h.coherent inv hinv).rule_of_mem hsplit⟩

/-- An invocation that has written a status that names a worker has met this worker. -/
theorem Sound.met (h : Sound t c) (hinv : inv ∈ c.invocations)
    (hlog : ⟨.updateStatus written, .ok job⟩ ∈ inv.log) (href : job.status.workerRef = some n) :
    inv.Met n := by
  obtain ⟨before, after, hsplit, read, seen, hread, -, alive, hsees, rfl, hlaunched⟩ :=
    h.wrote hinv hlog
  -- the store has answered with the status that was to be written
  obtain ⟨s, hs, clock, heq⟩ := (h.coherent inv hinv).heard _ _ hlog
  have hstatus := MemoryStore.updateStatus_status heq
  have hsub : before ⊆ inv.log := by
    rw [hsplit]
    exact List.subset_append_left ..
  have hreadlog : Reconciler.HasRead inv.job inv.log read := by
    rw [hsplit]
    exact hread.append _
  have hlawful := h.lawful read (h.read hinv hreadlog).1
  rw [hstatus] at href
  rcases (read.step_transition seen inv.now inv.pacing).workerRef hlawful alive href with
    ⟨heffect, rfl⟩ | ⟨hnamed, p, rfl⟩
  · rcases hlaunched heffect with ⟨worker, htold⟩ | ⟨e, hexists, htold⟩
    · exact .created (hsub htold)
    · exact .exists hexists (hsub htold)
  · cases hsees with
    | present hnamed' hasked =>
      obtain rfl := Option.some.inj (hnamed'.symm.trans hnamed)
      exact .found (hsub hasked)

/-- Every status that is not the first one was answered to the invocation that has written it. -/
def Told (c : Cluster) : Prop :=
  ∀ job, c.Recorded job → job.status = {} ∨
    ∃ inv ∈ c.invocations, ∃ written, ⟨.updateStatus written, .ok job⟩ ∈ inv.log

/-- In a smooth run, who writes a status is told so. -/
theorem Run.told (h : Run t Event.smooth c) : c.Told := by
  induction h with
  | start => exact fun job hjob => absurd hjob (not_recorded_start job)
  | @next c c' e before ok step ih =>
    have hs := before.sound
    intro job' hrec
    have hold : c.Recorded job' → job'.status = {} ∨
        ∃ inv ∈ c'.invocations, ∃ written, ⟨.updateStatus written, .ok job'⟩ ∈ inv.log := by
      intro hold
      refine (ih job' hold).imp_right fun ⟨inv, hinv, written, hlog⟩ => ?_
      obtain ⟨i, hi⟩ := List.mem_iff_getElem?.mp hinv
      obtain ⟨inv', hinv', hcont⟩ := next_invocations step hi
      exact ⟨inv', List.mem_of_getElem? hinv', written, hcont.log.subset hlog⟩
    rcases recorded_next step hrec with hrec | ⟨name, hjob'⟩
    · exact hold hrec
    cases hs.arrives step hjob' with
    | kept found => exact hold (.of_store found)
    | born _ _ _ _ _ outcome => exact .inl (by rw [outcome]; rfl)
    | @written i clock fate inv read job seen reply _ event _ found write after met =>
      subst event
      obtain rfl : fate = .answered := ok
      have hname : read.name = name := by
        rw [← (hs.same read job write.recorded (.of_store found) write.uid).name]
        exact (hs.consistent c.store (List.mem_cons_self ..)).named name job found
      subst hname
      -- the store still had the record that was read, so it has answered with the new one
      have hreply : (c.store.updateStatus
          { read with status := (read.step seen inv.now inv.pacing).status }).1 = .ok job' := by
        rw [write.outcome]
        exact MemoryStore.updateStatus_current found write.version write.uid
      obtain rfl : reply = .ok job' := (congrArg Prod.fst (Option.some.inj met)).symm.trans hreply
      exact .inr ⟨_, List.mem_of_getElem? after,
        { read with status := (read.step seen inv.now inv.pacing).status },
        List.mem_append_right _ (List.mem_singleton.mpr rfl)⟩

/-! ## The loser -/

/-- An invocation writes a status once. -/
theorem Sound.write_unique (h : Sound t c) (hinv : inv ∈ c.invocations) {a b : Job}
    {x y : Except StoreError Job} (ha : ⟨.updateStatus a, x⟩ ∈ inv.log)
    (hb : ⟨.updateStatus b, y⟩ ∈ inv.log) :
    (⟨.updateStatus b, y⟩ : Script.Exchange StoreCall StoreCall.Answer) = ⟨.updateStatus a, x⟩ := by
  obtain ⟨before, after, hsplit, _, _, -, hunwritten, -⟩ := h.wrote hinv ha
  rw [hsplit] at hb
  rcases List.mem_append.mp hb with hb | hb
  · exact absurd hb hunwritten.not_mem
  rcases List.mem_cons.mp hb with heq | hb
  · exact heq
  · -- the second write would have been made after the first one
    obtain ⟨between, later, rfl⟩ := List.append_of_mem hb
    rw [← List.cons_append, ← List.append_assoc] at hsplit
    obtain ⟨_, _, -, hunwritten', -⟩ := (h.coherent inv hinv).rule_of_mem hsplit
    exact absurd (List.mem_append_right _ (List.mem_cons_self ..)) hunwritten'.not_mem

/-- Whoever deletes a worker after a write that has failed deletes the one of the attempt
that it has read. -/
theorem Sound.rollback (h : Sound t c) (hinv : inv ∈ c.invocations) {read : Job}
    (hread : Reconciler.HasRead inv.job inv.log read) {e : StoreError}
    (hlost : ⟨.updateStatus written, .error e⟩ ∈ inv.log)
    {resume : Except StoreError Unit → StoreScript (Except ReconcileError Requeue)}
    (hrest : inv.rest = some (.ask (.deleteWorker n) resume)) : n = Worker.nameOf read := by
  obtain ⟨read', hread', hrem⟩ := (h.coherent inv hinv).rule hrest
  obtain rfl := hread.unique hread'
  cases hrem with
  | superseded hunwritten | residual hunwritten => exact absurd hlost hunwritten.not_mem
  | rolledBack last _ =>
    refine h.created hinv (?_ : ⟨.createWorker (t.launch read), .ok _⟩ ∈ inv.log)
    rw [last]
    exact List.mem_append_right _ (List.mem_cons_self ..)
  | retried hunwritten last _ =>
    rw [last] at hlost
    rcases List.mem_append.mp hlost with hlost | hlost
    · exact absurd hlost hunwritten.not_mem
    · cases List.mem_singleton.mp hlost

/-- **When the loser robs the winner.** In a smooth run, an invocation whose write was answered
with a conflict takes a worker away from a job that names it exactly if the worker is there and
another invocation, which has met it, has written the status that is stored, with a reference
and at the attempt that the loser has read. -/
theorem rollback_robs_iff (h : Run t Event.smooth c) {i : Nat}
    (hinv : c.invocations[i]? = some inv) {read : Job}
    (hread : Reconciler.HasRead inv.job inv.log read) {name : String} {version : UInt64}
    (hlost : ⟨.updateStatus written, .error (.conflict name version)⟩ ∈ inv.log)
    {resume : Except StoreError Unit → StoreScript (Except ReconcileError Requeue)}
    (hrest : inv.rest = some (.ask (.deleteWorker n) resume)) {clock : Instant}
    (hstep : c.next t (.turn i clock .answered) = some c') :
    c.store.Robs c'.store n ↔ (c.store.workers.get? n).isSome ∧
      ∃ k winner upon job, k ≠ i ∧ c.invocations[k]? = some winner ∧ winner.Met n ∧
        ⟨.updateStatus upon, .ok job⟩ ∈ winner.log ∧ c.store.jobs.get? read.name = some job ∧
        job.status.workerRef.isSome ∧ job.status.retries = read.status.retries := by
  have hs := h.sound
  have hmem := List.mem_of_getElem? hinv
  obtain rfl := hs.rollback hmem hread hlost hrest
  -- the deletion itself
  obtain ⟨hjobs, hgone⟩ : c'.store.jobs = c.store.jobs ∧
      c'.store.workers.get? (Worker.nameOf read) = none := by
    obtain ⟨inv', call, resume', reply, store, hinv', hrest', hmeet, rfl⟩ := next_turn hstep
    obtain rfl := Option.some.inj (hinv.symm.trans hinv')
    cases Option.some.inj (hrest.symm.trans hrest')
    obtain ⟨-, rfl⟩ := Prod.mk.inj (Option.some.inj hmeet)
    exact c.store.deleteWorker_gone (Worker.nameOf read)
  unfold MemoryStore.Robs
  rw [hjobs]
  constructor
  · rintro ⟨hsome, -, name, job, hjob, href⟩
    have hrec : c.Recorded job := .of_store hjob
    -- the name of the worker tells the job and the attempt
    obtain ⟨hname, hretries⟩ := Worker.nameFor_inj ((hs.lawful job hrec).named _ href)
    rw [← (hs.consistent c.store (List.mem_cons_self ..)).named name job hjob, ← hname] at hjob
    rcases h.told job hrec with hfirst | ⟨winner, hwinner, upon, hwon⟩
    · rw [hfirst] at href
      cases href
    obtain ⟨k, hk⟩ := List.mem_iff_getElem?.mp hwinner
    refine ⟨hsome, k, winner, upon, job, ?_, hk, hs.met hwinner hwon href, hwon, hjob,
      Option.isSome_iff_exists.mpr ⟨_, href⟩, hretries.symm⟩
    -- the loser has not written anything
    rintro rfl
    obtain rfl := Option.some.inj (hinv.symm.trans hk)
    cases hs.write_unique hmem hlost hwon
  · rintro ⟨hsome, k, winner, upon, job, -, -, -, -, hjob, href, hretries⟩
    obtain ⟨worker, href⟩ := Option.isSome_iff_exists.mp href
    refine ⟨hsome, hgone, read.name, job, hjob, ?_⟩
    rw [href, (hs.lawful job (.of_store hjob)).named worker href]
    unfold Worker.nameOf
    rw [hretries, (hs.consistent c.store (List.mem_cons_self ..)).named _ job hjob]

/-- Two invocations ask for the worker of the same attempt. The first one creates it, the
second one is told that it is there and records its name, and the first one comes too late. -/
def race : List Event :=
  [.submit bell (.ofNat 1) (.ofSecond 0), .start "bell" (.ofSecond 1) {}] ++ turns 0 2 ++
    [.start "bell" (.ofSecond 2) {}, .start "bell" (.ofSecond 3) {}] ++
    turns 1 3 ++ turns 2 4 ++ turns 1 1

/-- The record that both have read. -/
def contested : Job where
  name := "bell"
  uid := .ofNat 1
  resourceVersion := 2
  createdAt := .ofSecond 0
  spec := bell.spec
  status := { phase := .pending, startTime := some (.ofSecond 1) }

/-- What both make of it. -/
def claimed : Job :=
  { contested with status := { contested.status with workerRef := some "bell-worker-0" } }

/-- What the first one is about to do then. -/
theorem robs_race :
    (outcome {} race).store.Robs (outcome {} (race ++ turns 1 1)).store "bell-worker-0" :=
  ⟨rfl, rfl, "bell", { claimed with resourceVersion := 3 }, rfl, rfl⟩

theorem rollback_robs_race : ∃ c inv, Run {} Event.smooth c ∧ c.invocations[1]? = some inv ∧
    Reconciler.HasRead inv.job inv.log contested ∧
    ⟨.updateStatus claimed, .error (.conflict "bell" 2)⟩ ∈ inv.log ∧
    ∃ k winner upon job, k ≠ 1 ∧ c.invocations[k]? = some winner ∧ winner.Met "bell-worker-0" ∧
      ⟨.updateStatus upon, .ok job⟩ ∈ winner.log ∧ c.store.jobs.get? "bell" = some job ∧
      job.status.workerRef.isSome ∧ job.status.retries = 0 := by
  have hrun : Run {} Event.smooth (outcome {} race) := .outcome (by decide)
  have hinv : (outcome {} race).invocations[1]? =
      some (((outcome {} race).invocations[1]?).get rfl) := rfl
  have hread : Reconciler.HasRead "bell" (((outcome {} race).invocations[1]?).get rfl).log
      contested := rfl
  have hlost : ⟨.updateStatus claimed, .error (.conflict "bell" 2)⟩ ∈
      (((outcome {} race).invocations[1]?).get rfl).log := List.mem_of_getElem? (i := 3) rfl
  have hstep : (outcome {} race).next {} (.turn 1 (.ofSecond 0) .answered) =
      some (outcome {} (race ++ turns 1 1)) := rfl
  exact ⟨_, _, hrun, hinv, hread, hlost,
    ((rollback_robs_iff hrun hinv hread hlost rfl hstep).mp robs_race).2⟩

/-- **The loser robs the winner**, even if no call fails. -/
theorem rollback_robs : ¬ ∀ (c c' : Cluster) (i : Nat) (inv : Invocation) (written : Job)
    (name : String) (version : UInt64) (clock : Instant) (worker : String),
    Run {} Event.smooth c → c.invocations[i]? = some inv →
    ⟨.updateStatus written, .error (.conflict name version)⟩ ∈ inv.log →
    c.next {} (.turn i clock .answered) = some c' → ¬ c.store.Robs c'.store worker := by
  intro h
  exact h (outcome {} race) (outcome {} (race ++ turns 1 1)) 1 _ claimed "bell" 2 (.ofSecond 0)
    "bell-worker-0" (.outcome (by decide)) rfl (List.mem_of_getElem? (i := 3) rfl) rfl robs_race

end Cluster

end JobOperator
