import JobOperator.Proofs.Lifecycle.Upkeep
import JobOperator.Proofs.Visit.Tidy

/-!
# Who is swept away

The sweep goes by names alone. It deletes what looks like an earlier attempt at its job, and the
name of one job may be the beginning of the name of another one, or look like that of a worker.

* `Reconciler.sweep_obeys_names`: whatever the store answers, no worker of another job and none of
  a later attempt is deleted, and a sweep that succeeds has **missed none** of those that it
  is for.
* `Reconciler.sweep_run`: what a sweep leaves in a store (`Reconciler.Clears`).
* `Reconciler.names_tell`: the name of a worker tells its job and its attempt, and the sweep goes
  by what it tells.
-/

namespace JobOperator.Reconciler

variable {job : Job} {log : StoreTranscript} {m : MemoryStore}

/-- What a sweep may ask for. Of workers that are named after attempts it deletes those of earlier
attempts at its job. -/
def Spares (job : Job) (_ : StoreTranscript) : StoreCall → Prop
  | .listWorkers owner => owner = some job.name
  | .deleteWorker worker => ∀ owner attempt, worker = Worker.nameFor owner attempt →
      owner = job.name ∧ attempt < job.status.retries
  | _ => False

/-- If the sweep has succeeded, the workers of the job were listed, and those of earlier attempts
are not there any more. -/
def MissesNone (job : Job) (log : StoreTranscript) (result : Except ReconcileError Unit) : Prop :=
  ∀ u, result = .ok u → ∃ workers, ⟨.listWorkers (some job.name), .ok workers⟩ ∈ log ∧
    ∀ worker ∈ workers, ∀ attempt < job.status.retries,
      worker.name = Worker.nameFor job.name attempt → Removed log worker.name

/-- The workers of earlier attempts at a job are gone, and everything else is as it was. -/
structure Clears (job : Job) (m swept : MemoryStore) : Prop where
  jobs : swept.jobs = m.jobs
  workers : ∀ owner attempt, swept.workers.get? (Worker.nameFor owner attempt) =
    if owner = job.name ∧ attempt < job.status.retries then none
    else m.workers.get? (Worker.nameFor owner attempt)

/-- What looks superseded is so, if it is named after an attempt at all. -/
theorem spares_of_superseded {worker : Worker} (h : superseded job worker) :
    Spares job log (.deleteWorker worker.name) := by
  intro owner attempt hname
  unfold superseded at h
  rw [hname, Option.any_eq_true] at h
  obtain ⟨told, htold, hlt⟩ := h
  obtain ⟨rfl, rfl⟩ := Worker.attemptOf?_eq_some_iff.mp htold
  exact ⟨rfl, of_decide_eq_true hlt⟩

/-- Workers that may be deleted are deleted one after another, up to the first one that cannot
be. -/
theorem removeWorkers_spares {names : List String}
    (h : ∀ n ∈ names, ∀ log, Spares job log (.deleteWorker n)) :
    (removeWorkers names).Obeys (Spares job)
      (fun log' result => log ⊆ log' ∧ ∀ u, result = .ok u → ∀ n ∈ names, Removed log' n) log := by
  induction names generalizing log with
  | nil => exact ⟨List.Subset.refl _, fun _ _ n hn => absurd hn List.not_mem_nil⟩
  | cons n names ih =>
    obtain ⟨hfirst, hlater⟩ := List.forall_mem_cons.mp h
    refine (removeWorker_removed (hfirst log)).bind fun log' result => ?_
    rintro ⟨⟨reply, rfl⟩, hgone⟩
    have hsub := List.subset_append_left log [⟨StoreCall.deleteWorker n, reply⟩]
    cases result with
    | error _ => exact ⟨hsub, nofun⟩
    | ok u =>
      refine (ih hlater).imp fun log' result ⟨hsub', hrest⟩ =>
        ⟨List.Subset.trans hsub hsub', fun u' hu' => ?_⟩
      exact List.forall_mem_cons.mpr ⟨(hgone u rfl).mono hsub', hrest u' hu'⟩

/-- **Nothing else is swept, and nothing is missed**, whatever the store answers. -/
theorem sweep_obeys_names (job : Job) :
    (sweep job).Obeys (Spares job) (MissesNone job) [] := by
  refine StoreScript.obeys_call rfl fun reply => ?_
  cases reply with
  | error _ => exact nofun
  | ok workers =>
    refine (removeWorkers_spares fun n hn log => ?_).imp fun log' result ⟨hsub, hgone⟩ => ?_
    · obtain ⟨worker, hworker, rfl⟩ := List.mem_map.mp hn
      exact spares_of_superseded (List.mem_filter.mp hworker).2
    · refine fun u hu => ⟨workers, hsub (List.mem_singleton.mpr rfl), ?_⟩
      intro worker hmem attempt hlt hname
      have hold := (superseded_iff hname).mpr hlt
      exact hgone u hu worker.name
        (List.mem_map.mpr ⟨worker, List.mem_filter.mpr ⟨hmem, hold⟩, rfl⟩)

/-- **What a sweep leaves in a store**, if nothing goes wrong. -/
theorem sweep_run (h : m.Consistent) (job : Job) (clock : Instant) :
    ∃ swept, (sweep job).run (Visit.meet clock) (m, []) = (some (.ok ()), swept, []) ∧
      Clears job m swept := by
  have hsweep : (sweep job).Withstands False clock (fun _ => True)
      (Upshot False (fun _ => True) fun _ m' => m' = m.without (m.supersededBy job)) m :=
    sweep_withstands fun _ _ => trivial
  obtain ⟨result, swept, hrun, hend⟩ := hsweep.run_calm
  cases result with
  | error e => exact hend.1.elim
  | ok u =>
    obtain rfl := hend
    refine ⟨_, hrun, rfl, fun owner attempt => ?_⟩
    rw [MemoryStore.get?_without]
    split
    · next hmem =>
      obtain ⟨k, worker, hname, -, hlt⟩ := h.mem_supersededBy_iff.mp hmem
      obtain ⟨rfl, rfl⟩ := Worker.nameFor_inj hname
      rw [if_pos ⟨rfl, hlt⟩]
    · next hkept =>
      split
      · next hold =>
        -- it was not there in the first place
        obtain ⟨rfl, hlt⟩ := hold
        refine Option.eq_none_iff_forall_ne_some.mpr fun worker hw => hkept ?_
        exact h.mem_supersededBy_iff.mpr ⟨attempt, worker, rfl, hw, hlt⟩
      · rfl

/-- **A worker's name tells its job and its attempt**, whatever the job is called: of every name
that is made for an attempt, the attempt is read for this job alone, and no two attempts share a
name. Hence the sweep neither misses an earlier attempt nor mistakes another worker for one. -/
theorem names_tell (h : m.Consistent) (clock : Instant) :
    (∀ owner owner' attempt told,
      Worker.attemptOf? owner (Worker.nameFor owner' attempt) = some told ↔
        owner = owner' ∧ told = attempt) ∧
    (∀ job job' : Job, Worker.nameOf job = Worker.nameOf job' ↔
      job.name = job'.name ∧ job.status.retries = job'.status.retries) ∧
    ∀ job : Job, (sweep job).Obeys (Spares job) (MissesNone job) [] ∧
      ∃ swept, (sweep job).run (Visit.meet clock) (m, []) = (some (.ok ()), swept, []) ∧
        Clears job m swept := by
  refine ⟨fun _ _ _ _ => Worker.attemptOf?_eq_some_iff, fun job job' => ⟨Worker.nameFor_inj, ?_⟩,
    fun job => ⟨sweep_obeys_names job, sweep_run h job clock⟩⟩
  rintro ⟨hname, hretries⟩
  rw [Worker.nameOf, Worker.nameOf, hname, hretries]

/-- The worker of a first attempt has failed, and is still there when the retry has been recorded.
Another job has the name of that worker. -/
def crowded : MemoryStore :=
  let submission (name : String) : Job.Submission :=
    ⟨name, { workerImage := "aer:0.15", circuits := "[]" }⟩
  let calm (times : List Int) : List Visit :=
    times.map fun t => .calm (.ofSecond t) (.ofSecond t)
  let bell := (MemoryStore.createJob {} ((submission "bell").toJob (.ofNat 1) (.ofSecond 0))).2
  let started := visits {} "bell" (calm [0, 1, 2]) bell
  let failed := (started.updateWorkerPhase "bell-worker-0" .failed).2
  let retried := visit {} "bell"
    ⟨.ofSecond 4, .ofSecond 4, [.answered, .answered, .answered, .before .crash]⟩ failed
  visits {} "bell-worker-0" (calm [5, 6])
    (retried.createJob ((submission "bell-worker-0").toJob (.ofNat 2) (.ofSecond 4))).2

theorem names_tell_crowded : ∃ bell swept,
    crowded.Consistent ∧ crowded.jobs.get? "bell" = some bell ∧
    crowded.workers.keys = ["bell-worker-0", "bell-worker-0-worker-0"] ∧
    (sweep bell).run (Visit.meet (.ofSecond 7)) (crowded, []) = (some (.ok ()), swept, []) ∧
    swept.workers.get? (Worker.nameFor "bell" 0) = none ∧
    swept.workers.get? (Worker.nameFor "bell-worker-0" 0) =
      crowded.workers.get? (Worker.nameFor "bell-worker-0" 0) := by
  have hseq : Sequential {} crowded := by
    refine Sequential.visits (.submitted (.visited (.reported (Sequential.visits (.submitted .empty
      ⟨"bell", _⟩ _ _) "bell" _) _ _) _ _) ⟨"bell-worker-0", _⟩ _ _) "bell-worker-0" _
  have hconsistent := hseq.tidy.consistent
  obtain ⟨bell, hbell⟩ := Option.isSome_iff_exists.mp
    (show (crowded.jobs.get? "bell").isSome = true by decide +kernel)
  have hnamed : bell.name = "bell" := hconsistent.named _ _ hbell
  have hretries : bell.status.retries = 1 := by
    have hall : (crowded.jobs.get? "bell").all (·.status.retries = 1) = true := by decide +kernel
    rw [hbell] at hall
    simpa using hall
  obtain ⟨-, -, hsweep⟩ := names_tell hconsistent (.ofSecond 7)
  obtain ⟨-, swept, hrun, hcleared⟩ := hsweep bell
  refine ⟨bell, swept, hconsistent, hbell, by decide +kernel, hrun, ?_, ?_⟩
  · rw [hcleared.workers, hnamed, hretries, if_pos (by decide)]
  · rw [hcleared.workers, hnamed, if_neg fun hold => absurd hold.1 (by decide)]

end JobOperator.Reconciler
