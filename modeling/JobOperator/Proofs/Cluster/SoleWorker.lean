import JobOperator.Proofs.Cluster.Abandoned
import JobOperator.Proofs.Cluster.Provenance
import JobOperator.Proofs.Visit.Confluence

/-!
# A job with two workers

A job that waits is rid of the workers of earlier attempts before it runs. Nothing rids it of
them while it runs.

* `MemoryStore.OnlyNamed`: the job has the worker that it names, and no other one.
* `Reconciler.running_of_visited`: what a calm visit has done that leaves a job running.
* `Cluster.sole_worker_iff`: after all invocations for the job have ended, and a calm visit has
  left it running, it has only the worker that it names **exactly if** it was waiting before the
  visit, or no invocation was interrupted and has abandoned a worker of an earlier attempt.
* `Cluster.not_sole_worker`: it may have two.
-/

namespace JobOperator

/-- The worker that the job names is there, and the job has no other one. -/
def MemoryStore.OnlyNamed (m : MemoryStore) (job : Job) : Prop :=
  ∃ ref worker, job.status.workerRef = some ref ∧ m.workers.get? ref = some worker ∧
    ∀ n w, m.workers.get? n = some w → w.owner.name = job.name → n = ref

theorem MemoryStore.onlyNamed_congr {m m' : MemoryStore} {a b : Job}
    (hworkers : m.workers = m'.workers) (href : a.status.workerRef = b.status.workerRef)
    (hname : a.name = b.name) : m.OnlyNamed a ↔ m'.OnlyNamed b := by
  unfold OnlyNamed
  rw [hworkers, href, hname]

namespace Reconciler

variable {r : Reconciler} {now clock : Instant} {m : MemoryStore} {job : Job} {name : String}

/-- A calm visit that leaves a job running has seen its worker, and has deleted the workers of
earlier attempts if the job was waiting. -/
theorem running_of_visited (h : m.Consistent)
    (found : (r.visited now clock m name).jobs.get? name = some job)
    (running : job.status.phase = .running) :
    ∃ before p, m.jobs.get? name = some before ∧ before.SameIdentity job ∧
      job.status = { before.status with phase := .running } ∧
      (before.Waits now ∨ before.status.phase = .running) ∧
      (m.readied before now).sight before = .found p ∧
      (r.visited now clock m name).workers = (m.readied before now).workers := by
  cases hbefore : m.jobs.get? name with
  | none =>
    rw [visited_of_absent hbefore] at found
    exact absurd (found.symm.trans hbefore) nofun
  | some before =>
  have named := h.named name before hbefore
  subst named
  rw [visited_of_found hbefore] at found ⊢
  cases hterm : before.status.phase.terminal with
  | true =>
    rw [handled_of_terminal hterm] at found
    rw [← found_wrappedUp hbefore found, running] at hterm
    cases hterm
  | false =>
  rw [handled_of_alive hterm] at found ⊢
  have hcreate : (r.stepIn now (m.readied before now) before).effect ≠ .create := fun heffect => by
    rw [carriedOut_of_create heffect, MemoryStore.get?_record] at found
    rw [← Option.some.inj found] at running
    obtain ⟨-, -, hnone, -⟩ := Job.step_running running
    exact nomatch heffect.symm.trans hnone
  rw [carriedOut_of_ne_create hcreate] at found ⊢
  rw [MemoryStore.relieved_jobs] at found
  obtain ⟨hsame, hstatus⟩ : before.SameIdentity job ∧
      job.status = (r.stepIn now (m.readied before now) before).status := by
    rcases found_updated (MemoryStore.found_readied hbefore now) found with rfl | ⟨rfl, hkept⟩
    · exact ⟨⟨rfl, rfl, rfl, rfl⟩, rfl⟩
    · exact ⟨.refl job, hkept.symm⟩
  rw [hstatus] at running
  obtain ⟨hphase, ⟨p, hseen⟩, hnone, hkept⟩ := Job.step_running running
  refine ⟨before, p, rfl, hsame, hstatus.trans hkept, hphase, hseen, ?_⟩
  rw [show (r.stepIn now (m.readied before now) before).effect = .none from hnone]
  exact MemoryStore.updated_workers ..

end Reconciler

namespace Cluster

variable {t : Worker.Template} {allowed : Event → Prop} {c : Cluster} {job : Job} {name : String}

/-- A job whose worker is seen has only this one if the sweep leaves none of earlier attempts: there
are none of later attempts. -/
theorem Run.onlyNamed_iff (h : Run t allowed c) (hu : ∀ uid, c.Unwrapped uid)
    (found : c.store.jobs.get? job.name = some job) {now : Instant} {p : Worker.Phase}
    (hsight : (c.store.readied job now).sight job = .found p) :
    (c.store.readied job now).OnlyNamed job ↔
      ∀ k < job.status.retries,
        (c.store.readied job now).workers.get? (Worker.nameFor job.name k) = none := by
  have hs := h.sound
  have hcons := hs.consistent_now
  obtain ⟨ref, worker, hnamed, hworker, -⟩ := MemoryStore.found_of_sight hsight
  have href : ref = Worker.nameFor job.name job.status.retries :=
    (hs.lawful job (.of_store found)).named ref hnamed
  constructor
  · rintro ⟨ref', -, hnamed', -, hsole⟩ k hlt
    obtain rfl := Option.some.inj (hnamed.symm.trans hnamed')
    refine Option.eq_none_iff_forall_ne_some.mpr fun w hw => ?_
    -- the name of such a worker would tell the present attempt
    have heq := hsole _ w hw (hcons.owner_of_name (MemoryStore.get?_of_readied hw))
    obtain ⟨-, rfl⟩ := Worker.nameFor_inj (heq.trans href)
    exact UInt32.lt_irrefl _ hlt
  · intro hnone
    refine ⟨ref, worker, hnamed, hworker, fun n w hw howner => ?_⟩
    have hold := MemoryStore.get?_of_readied hw
    obtain ⟨k, hk⟩ := (hcons.placed n w hold).attempt
    rw [howner] at hk
    subst hk
    have hlt : ¬ k < job.status.retries := fun hlt => nomatch (hnone k hlt).symm.trans hw
    rw [href, UInt32.le_antisymm (h.reached hu found hold) (UInt32.not_lt.mp hlt)]

/-- A worker of an earlier attempt at a job that runs was abandoned by an invocation that was
interrupted, if all invocations for the job have ended. -/
theorem Run.left_behind (h : Run t Event.honest c) (hu : ∀ uid, c.Unwrapped uid)
    (found : c.store.jobs.get? job.name = some job) (running : job.status.phase = .running)
    (hended : ∀ inv ∈ c.invocations, inv.job = job.name → inv.ended) {k : UInt32} {worker : Worker}
    (hw : c.store.workers.get? (Worker.nameFor job.name k) = some worker)
    (hlt : k < job.status.retries) :
    ∃ inv ∈ c.invocations, ∃ read, inv.Interrupted ∧ inv.Abandons t read ∧
      job.SameIdentity read ∧ read.status.retries = k := by
  obtain ⟨inv, hinv, read, habandons, hsame, hretries⟩ :=
    (h.tended hu).running job.name job k worker found running hw hlt
  have hjob : inv.job = job.name := (h.sound.read hinv habandons.first).2.trans hsame.name
  exact ⟨inv, hinv, read, h.interrupted hinv (hended inv hinv hjob) habandons found hsame.uid.symm,
    habandons, hsame, hretries⟩

/-- **When a job has a second worker.** Calls are answered truthfully or fail for the moment, and
all invocations for a job have ended. A calm visit that leaves the job running leaves it with
the worker that it names and no other one exactly if the job was waiting before, or nobody was
interrupted who had asked for the worker of an earlier attempt that is still there, and had
neither written a status nor deleted this worker. -/
theorem sole_worker_iff (h : Run t Event.honest c) (hu : ∀ uid, c.Unwrapped uid)
    (hended : ∀ inv ∈ c.invocations, inv.job = name → inv.ended) {pacing : Pacing}
    {now clock : Instant}
    (found : (Reconciler.visit ⟨t, pacing⟩ name (.calm now clock) c.store).jobs.get? name = some job)
    (running : job.status.phase = .running) :
    (Reconciler.visit ⟨t, pacing⟩ name (.calm now clock) c.store).OnlyNamed job ↔
      (∃ before, c.store.jobs.get? name = some before ∧ before.status.phase = .pending) ∨
      ¬ ∃ inv ∈ c.invocations, ∃ read, inv.Interrupted ∧ inv.Abandons t read ∧
        job.SameIdentity read ∧ read.status.retries < job.status.retries ∧
        (c.store.workers.get? (Worker.nameOf read)).isSome := by
  have hcons := h.sound.consistent_now
  rw [Reconciler.visit_calm hcons] at found ⊢
  obtain ⟨before, p, hbefore, hsame, hstatus, hphase, hsight, hworkers⟩ :=
    Reconciler.running_of_visited hcons found running
  obtain rfl : before.name = name := hcons.named name before hbefore
  have hretries : job.status.retries = before.status.retries := by rw [hstatus]
  have href : job.status.workerRef = before.status.workerRef := by rw [hstatus]
  rw [MemoryStore.onlyNamed_congr hworkers href hsame.name, h.onlyNamed_iff hu hbefore hsight,
    hretries]
  rcases hphase with hwaits | hrunning
  · refine iff_of_true (fun k hlt => ?_) (.inl ⟨before, hbefore, hwaits.1⟩)
    exact hcons.swept hwaits hlt
  have hnot : ¬ ∃ b, c.store.jobs.get? before.name = some b ∧ b.status.phase = .pending := by
    rintro ⟨b, hb, hpending⟩
    obtain rfl := Option.some.inj (hbefore.symm.trans hb)
    exact nomatch hpending.symm.trans hrunning
  have hready : c.store.readied before now = c.store :=
    MemoryStore.readied_of_not_pending (by rw [hrunning]; exact nofun)
  rw [or_iff_right hnot, hready]
  constructor
  · rintro hnone ⟨inv, hinv, read, -, -, hread, hlt, hsome⟩
    rw [Worker.nameOf, hread.name, hsame.name, hnone _ hlt] at hsome
    cases hsome
  · intro hnone k hlt
    refine Option.eq_none_iff_forall_ne_some.mpr fun w hw => hnone ?_
    obtain ⟨inv, hinv, read, hinterrupted, habandons, hread, rfl⟩ :=
      h.left_behind hu hbefore hrunning hended hw hlt
    refine ⟨inv, hinv, read, hinterrupted, habandons, hsame.symm.trans hread, hlt, ?_⟩
    rw [Worker.nameOf, hread.name, hw]
    rfl

/-- The second invocation is overtaken by the others, which bring the job to its second attempt. It
asks for the worker of the first attempt then, its write is answered with a conflict, and the call
that takes the worker back fails. -/
def doubled : List Event :=
  [.submit bell (.ofNat 1) (.ofSecond 0), .start "bell" (.ofSecond 1) {}] ++ turns 0 2 ++
    [.start "bell" (.ofSecond 2) {}] ++ turns 1 1 ++
    [.start "bell" (.ofSecond 3) {}] ++ turns 2 4 ++ [.start "bell" (.ofSecond 4) {}] ++ turns 3 4 ++
    [.report "bell-worker-0" .failed, .start "bell" (.ofSecond 5) {}] ++ turns 4 4 ++
    [.start "bell" (.ofSecond 6) {}] ++ turns 5 4 ++ [.start "bell" (.ofSecond 7) {}] ++ turns 6 4 ++
    turns 1 3 ++ [.turn 1 (.ofSecond 7) (.refused (.transient "timeout"))]

/-- What a calm visit leaves behind after that. -/
def doubledUp : MemoryStore :=
  Reconciler.visit {} "bell" (.calm (.ofSecond 8) (.ofSecond 8)) (outcome {} doubled).store

/-- The job as it is then. -/
def doubledBell : Job where
  name := "bell"
  uid := .ofNat 1
  resourceVersion := 7
  createdAt := .ofSecond 0
  spec := bell.spec
  status := {
    phase := .running
    retries := 1
    workerRef := some "bell-worker-1"
    startTime := some (.ofSecond 1) }

theorem found_doubledUp : doubledUp.jobs.get? "bell" = some doubledBell := by
  decide +kernel

theorem not_onlyNamed_doubledUp : ¬ doubledUp.OnlyNamed doubledBell := by
  rintro ⟨ref, worker, href, -, hsole⟩
  have hextra : ∃ w, doubledUp.workers.get? "bell-worker-0" = some w ∧ w.owner.name = "bell" := by
    refine ⟨(doubledUp.workers.get? "bell-worker-0").get (by decide +kernel), ?_, by decide +kernel⟩
    exact (Option.some_get _).symm
  obtain ⟨w, hw, howner⟩ := hextra
  obtain rfl := Option.some.inj href
  exact absurd (hsole _ w hw howner) (by decide)

theorem sole_worker_doubled : ∃ c, Run {} Event.honest c ∧ (∀ uid, c.Unwrapped uid) ∧
    (∀ inv ∈ c.invocations, inv.job = "bell" → inv.ended) ∧
    (Reconciler.visit {} "bell" (.calm (.ofSecond 8) (.ofSecond 8)) c.store).jobs.get? "bell" =
      some doubledBell ∧
    ∃ inv ∈ c.invocations, ∃ read, inv.Interrupted ∧ inv.Abandons {} read ∧
      doubledBell.SameIdentity read ∧ read.status.retries < 1 ∧
      (c.store.workers.get? (Worker.nameOf read)).isSome := by
  have hrun : Run {} Event.honest (outcome {} doubled) := .outcome (by decide)
  have hu : ∀ uid, (outcome {} doubled).Unwrapped uid :=
    fun uid => hrun.unwrapped (by decide +kernel)
  have hended : ∀ inv ∈ (outcome {} doubled).invocations, inv.job = "bell" → inv.ended := by
    decide +kernel
  have found : (Reconciler.visit ⟨{}, {}⟩ "bell" (.calm (.ofSecond 8) (.ofSecond 8))
      (outcome {} doubled).store).jobs.get? "bell" = some doubledBell := found_doubledUp
  refine ⟨_, hrun, hu, hended, found, ?_⟩
  by_contra hnone
  exact not_onlyNamed_doubledUp ((sole_worker_iff hrun hu hended found rfl).mpr (.inr hnone))

/-- **A job may have two workers**: a calm visit leaves it running with the worker of an earlier
attempt besides its own, although nobody is at work any more. -/
theorem not_sole_worker : ¬ ∀ (c : Cluster) (name : String) (now clock : Instant) (job : Job),
    Run {} Event.honest c → (∀ inv ∈ c.invocations, inv.job = name → inv.ended) →
    (Reconciler.visit {} name (.calm now clock) c.store).jobs.get? name = some job →
    job.status.phase = .running →
    (Reconciler.visit {} name (.calm now clock) c.store).OnlyNamed job := by
  intro h
  exact not_onlyNamed_doubledUp (h (outcome {} doubled) "bell" (.ofSecond 8) (.ofSecond 8)
    doubledBell (.outcome (by decide)) (by decide +kernel) found_doubledUp rfl)

end Cluster

end JobOperator
