import JobOperator.Proofs.Cluster.Step
import JobOperator.Proofs.Store.Consistent

/-!
# What is stored, now or at any time

* `Cluster.Sound`: every store of a run is consistent, every job that was ever stored is
  lawful, and a **uid stands for one job**: all records that have it agree in everything
  but the status and the version.
* `Cluster.Arrives`: how a job can come to be stored, which is by having been there, by
  being submitted, or by having its status written (`Cluster.Write`).
* `Cluster.Run.sound`: every cluster that comes about is sound.

That a written status is the outcome of a step goes back to the discipline of the
invocations, and that the step was one of this job to its uid: what was read may be as
old as it likes.
-/

namespace JobOperator

/-- Two records of the same incarnation of a job. -/
structure Job.SameIdentity (job job' : Job) : Prop where
  name : job'.name = job.name
  uid : job'.uid = job.uid
  createdAt : job'.createdAt = job.createdAt
  spec : job'.spec = job.spec

namespace Job.SameIdentity

variable {a b c : Job}

theorem refl (a : Job) : a.SameIdentity a := ⟨rfl, rfl, rfl, rfl⟩

theorem symm (h : a.SameIdentity b) : b.SameIdentity a :=
  ⟨h.name.symm, h.uid.symm, h.createdAt.symm, h.spec.symm⟩

theorem trans (h : a.SameIdentity b) (h' : b.SameIdentity c) : a.SameIdentity c :=
  ⟨h'.name.trans h.name, h'.uid.trans h.uid, h'.createdAt.trans h.createdAt, h'.spec.trans h.spec⟩

end Job.SameIdentity

namespace Cluster

/-- The job has been stored like this at some time. -/
def Recorded (c : Cluster) (job : Job) : Prop :=
  ∃ s ∈ c.stores, ∃ name, s.jobs.get? name = some job

/-- What holds of a cluster whatever has happened. -/
structure Sound (t : Worker.Template) (c : Cluster) : Prop where
  coherent : ∀ inv ∈ c.invocations, inv.Coherent t c.stores
  consistent : ∀ s ∈ c.stores, s.Consistent
  /-- only uids that were given out are stored -/
  issued : ∀ job, c.Recorded job → job.uid ∈ c.issued
  lawful : ∀ job, c.Recorded job → job.Lawful
  /-- a uid stands for one job -/
  same : ∀ job job', c.Recorded job → c.Recorded job' → job'.uid = job.uid → job.SameIdentity job'

/-- An invocation has written the status of `job`, which makes it `job'`. It has done so
upon what it has read, which was recorded with the same uid and at the same version. -/
structure Write (t : Worker.Template) (c : Cluster) (inv : Invocation) (read : Job)
    (seen : Observation) (job job' : Job) : Prop where
  named : inv.job = read.name
  first : Reconciler.HasRead inv.job inv.log read
  recorded : c.Recorded read
  alive : read.status.phase.terminal = false
  sees : read.Sees inv.now inv.log seen
  uid : job.uid = read.uid
  version : job.resourceVersion = read.resourceVersion
  outcome : job' = { job with
    status := (read.step seen inv.now inv.pacing).status
    resourceVersion := job.resourceVersion + 1 }

/-- How a job can come to be stored by an event. -/
inductive Arrives (t : Worker.Template) (c c' : Cluster) (e : Event) (name : String) (job' : Job) :
    Prop where
  /-- it was stored already -/
  | kept (found : c.store.jobs.get? name = some job')
  /-- it was submitted -/
  | born {submission : Job.Submission} {uid : Uid} {createdAt : Instant}
      (event : e = .submit submission uid createdAt)
      (stores : c'.stores = c'.store :: c.stores) (fresh : uid ∉ c.issued)
      (issued : uid ∈ c'.issued) (named : submission.name = name)
      (outcome : job' = { submission.toJob uid createdAt with resourceVersion := 1 })
  /-- its status was written -/
  | written {i : Nat} {clock : Instant} {fate : Fate} {inv : Invocation} {read job : Job}
      {seen : Observation} {reply : Except StoreError Job}
      {rest : StoreScript (Except ReconcileError Requeue)} (event : e = .turn i clock fate)
      (stores : c'.stores = c'.store :: c.stores) (found : c.store.jobs.get? name = some job)
      (write : Write t c inv read seen job job')
      (after : c'.invocations[i]? = some (inv.hear (.updateStatus
        { read with status := (read.step seen inv.now inv.pacing).status }) reply rest))
      (met : c.meet clock (.updateStatus
        { read with status := (read.step seen inv.now inv.pacing).status }) fate =
          some (reply, c'.store))

variable {t : Worker.Template} {allowed : Event → Prop} {c c' : Cluster} {e : Event}

theorem Recorded.of_store {name : String} {job : Job} (h : c.store.jobs.get? name = some job) :
    c.Recorded job :=
  ⟨c.store, List.mem_cons_self .., name, h⟩

/-- What an invocation has read was recorded, under the name that it was asked for. -/
theorem Sound.read (h : Sound t c) {inv : Invocation} {job : Job} (hinv : inv ∈ c.invocations)
    (hread : Reconciler.HasRead inv.job inv.log job) : c.Recorded job ∧ inv.job = job.name := by
  obtain ⟨s, hs, hjob⟩ := (h.coherent inv hinv).recorded hread
  exact ⟨⟨s, hs, _, hjob⟩, ((h.consistent s hs).named _ _ hjob).symm⟩

/-- The present store is consistent. -/
theorem Sound.consistent_now (h : Sound t c) : c.store.Consistent :=
  h.consistent c.store (List.mem_cons_self ..)

/-- A store has at most one record of an incarnation. -/
theorem Sound.unique (h : Sound t c) {s : MemoryStore} (hs : s ∈ c.stores) {name name' : String}
    {job job' : Job} (hjob : s.jobs.get? name = some job) (hjob' : s.jobs.get? name' = some job')
    (huid : job'.uid = job.uid) : job' = job := by
  -- records of one uid have one name, and lie under it
  have hname := (h.same job job' ⟨s, hs, name, hjob⟩ ⟨s, hs, name', hjob'⟩ huid).name
  rw [(h.consistent s hs).named _ _ hjob', (h.consistent s hs).named _ _ hjob] at hname
  rw [hname, hjob] at hjob'
  exact (Option.some.inj hjob').symm

/-- **How jobs come to be stored.** -/
theorem Sound.arrives (h : Sound t c) (hstep : c.next t e = some c') {name : String} {job' : Job}
    (hjob : c'.store.jobs.get? name = some job') : Arrives t c c' e name job' := by
  rcases next_cases hstep with ⟨hstores, -⟩ | ⟨hstores, -, call, horigin, hchange⟩
  · rw [(List.cons.inj hstores).1] at hjob
    exact .kept hjob
  generalize hs : c'.store = s at hchange hjob hstores
  cases hchange with
  | nothing | launched | reported | lost => exact .kept hjob
  | withdrawn gone _ =>
    rw [Table.get?_erase] at hjob
    split at hjob
    · cases hjob
    · exact .kept hjob
  | submitted job free =>
    rw [Table.get?_insert] at hjob
    split at hjob
    · next hname =>
      obtain rfl := Option.some.inj hjob
      cases horigin with
      | submitted submission createdAt fresh issued =>
        exact .born rfl (hs ▸ hstores) fresh (by rw [issued]; exact List.mem_cons_self ..) hname rfl
      | turned before rest _ _ =>
        -- no invocation submits a job
        exact ((h.coherent _ (List.mem_of_getElem? before)).rule rest).elim
    · exact .kept hjob
  | @written job stored found version uid =>
    rw [Table.get?_insert] at hjob
    split at hjob
    · next hname =>
      subst hname
      obtain rfl := Option.some.inj hjob
      cases horigin with
      | turned before rest after met =>
        have hinv := List.mem_of_getElem? before
        obtain ⟨read, seen, hread, -, alive, sees, rfl, -⟩ := (h.coherent _ hinv).rule rest
        obtain ⟨hrec, hnamed⟩ := h.read hinv hread
        exact .written rfl (hs ▸ hstores) found
          ⟨hnamed, hread, hrec, alive, sees, uid, version, rfl⟩ after met
    · exact .kept hjob

/-- A written job is the same job as before. -/
theorem Write.sameIdentity {inv : Invocation} {read job job' : Job} {seen : Observation}
    (w : Write t c inv read seen job job') : job.SameIdentity job' := by
  obtain rfl := w.outcome
  exact ⟨rfl, rfl, rfl, rfl⟩

theorem Write.status {inv : Invocation} {read job job' : Job} {seen : Observation}
    (w : Write t c inv read seen job job') :
    job'.status = (read.step seen inv.now inv.pacing).status := by
  obtain rfl := w.outcome
  rfl

theorem Write.version_succ {inv : Invocation} {read job job' : Job} {seen : Observation}
    (w : Write t c inv read seen job job') : job'.resourceVersion = job.resourceVersion + 1 := by
  obtain rfl := w.outcome
  rfl

/-- A written job is lawful, because what was read is. -/
theorem Write.lawful (h : Sound t c) {inv : Invocation} {read job job' : Job} {seen : Observation}
    (w : Write t c inv read seen job job') (hjob : c.Recorded job) : job'.Lawful := by
  -- `read` may be older than `job`, but its uid says that it is the same job
  have hsame := (h.same read job w.recorded hjob w.uid).trans w.sameIdentity
  have ht := read.step_transition seen inv.now inv.pacing
  rw [← w.status] at ht
  refine (h.lawful read w.recorded).transition ht ?_ hsame.name hsame.spec
  rintro p rfl
  exact w.sees.isSome_of_found

/-! ## Soundness -/

/-- A job that is recorded after an event was recorded before it, or is stored now. -/
theorem recorded_next (hstep : c.next t e = some c') {job : Job}
    (hrec : c'.Recorded job) :
    c.Recorded job ∨ ∃ name, c'.store.jobs.get? name = some job := by
  obtain ⟨s, hs, name, hjob⟩ := hrec
  rcases next_cases hstep with ⟨hstores, -⟩ | ⟨hstores, -⟩
  · rw [hstores] at hs
    exact .inl ⟨s, hs, name, hjob⟩
  · rw [hstores] at hs
    rcases List.mem_cons.mp hs with rfl | hs
    · exact .inr ⟨name, hjob⟩
    · exact .inl ⟨s, hs, name, hjob⟩

/-- A job that is recorded after an event is one that was recorded before it, or has been
submitted by it. -/
theorem Sound.descends (h : Sound t c) (hstep : c.next t e = some c') {job' : Job}
    (hrec : c'.Recorded job') :
    (∃ job, c.Recorded job ∧ job.SameIdentity job') ∨
      ∃ submission uid createdAt, e = .submit submission uid createdAt ∧ uid ∉ c.issued ∧
        uid ∈ c'.issued ∧ job' = { submission.toJob uid createdAt with resourceVersion := 1 } := by
  rcases recorded_next hstep hrec with hold | ⟨name, hjob⟩
  · exact .inl ⟨job', hold, .refl job'⟩
  cases h.arrives hstep hjob with
  | kept found => exact .inl ⟨job', .of_store found, .refl job'⟩
  | born event _ fresh issued _ outcome => exact .inr ⟨_, _, _, event, fresh, issued, outcome⟩
  | written _ _ found write _ _ => exact .inl ⟨_, .of_store found, write.sameIdentity⟩

/-- In the beginning nothing is stored. -/
theorem not_recorded_start (job : Job) : ¬ Recorded {} job := by
  rintro ⟨s, hs, name, hjob⟩
  obtain rfl := List.mem_singleton.mp hs
  cases hjob

theorem Sound.start : Sound t {} where
  coherent := fun _ hinv => absurd hinv List.not_mem_nil
  consistent := by
    intro s hs
    obtain rfl := List.mem_singleton.mp hs
    exact .empty
  issued := fun job hjob => absurd hjob (not_recorded_start job)
  lawful := fun job hjob => absurd hjob (not_recorded_start job)
  same := fun job _ hjob => absurd hjob (not_recorded_start job)

/-- An event keeps all that holds of a cluster. -/
theorem Sound.next (h : Sound t c) (hstep : c.next t e = some c') : Sound t c' where
  coherent := coherent_next h.coherent hstep
  consistent := by
    intro s hs
    rcases next_cases hstep with ⟨hstores, -⟩ | ⟨hstores, -, call, horigin, hchange⟩
    · rw [hstores] at hs
      exact h.consistent s hs
    · rw [hstores] at hs
      rcases List.mem_cons.mp hs with rfl | hs
      · -- only invocations ask for workers, and they name them after attempts
        refine (h.consistent c.store (List.mem_cons_self ..)).change hchange ?_
        rintro launch rfl
        cases horigin with
        | turned before rest _ _ =>
          obtain ⟨job, -, -, -, -, rfl⟩ :=
            (h.coherent _ (List.mem_of_getElem? before)).rule rest
          exact ⟨job.status.retries, rfl⟩
      · exact h.consistent s hs
  issued := by
    intro job hrec
    rcases h.descends hstep hrec with ⟨old, hold, hsame⟩ | ⟨_, _, _, -, -, hissued, rfl⟩
    · rw [hsame.uid]
      exact next_issued hstep (h.issued old hold)
    · exact hissued
  lawful := by
    intro job hrec
    rcases recorded_next hstep hrec with hold | ⟨name, hjob⟩
    · exact h.lawful job hold
    cases h.arrives hstep hjob with
    | kept found => exact h.lawful job (.of_store found)
    | born _ _ _ _ _ outcome =>
      rw [outcome]
      exact .submitted rfl
    | written _ _ found write _ _ => exact write.lawful h (.of_store found)
  same := by
    intro job job' hrec hrec' huid
    rcases h.descends hstep hrec with ⟨a, ha, hsame⟩ | ⟨_, _, _, he, hfresh, -, rfl⟩
    · rcases h.descends hstep hrec' with ⟨b, hb, hsame'⟩ | ⟨_, _, _, -, hfresh, -, rfl⟩
      · have hab : b.uid = a.uid := hsame'.uid.symm.trans (huid.trans hsame.uid)
        exact hsame.symm.trans ((h.same a b ha hb hab).trans hsame')
      · -- a uid that has just been given out was on no record
        refine absurd (h.issued a ha) ?_
        rw [← hsame.uid, ← huid]
        exact hfresh
    · rcases h.descends hstep hrec' with ⟨b, hb, hsame'⟩ | ⟨_, _, _, he', -, -, rfl⟩
      · refine absurd (h.issued b hb) ?_
        rw [← hsame'.uid, huid]
        exact hfresh
      · -- an event submits one job only
        obtain ⟨rfl, rfl, rfl⟩ := Event.submit.inj (he.symm.trans he')
        exact .refl _

/-- **Soundness**: whatever happens, uids stand for jobs, and jobs are lawful. -/
theorem Run.sound (h : Run t allowed c) : Sound t c := by
  induction h with
  | start => exact .start
  | next _ _ step ih => exact ih.next step

/-- **The status invariant**: whatever has happened, every stored job is lawful. -/
theorem stored_lawful (h : Reachable t c) {name : String} {job : Job}
    (hjob : c.store.jobs.get? name = some job) : job.Lawful :=
  h.sound.lawful job (.of_store hjob)

/-- The job is brought to run by four invocations; the second one is cut short after it has
asked for the worker, and the last one is told of a failure that did not happen. -/
def patched : List Event :=
  [.submit bell (.ofNat 1) (.ofSecond 0), .start "bell" (.ofSecond 1) {}] ++ turns 0 2 ++
    [.start "bell" (.ofSecond 2) {}] ++ turns 1 3 ++
    [.cut 1, .start "bell" (.ofSecond 3) {}] ++ turns 2 4 ++
    [.start "bell" (.ofSecond 4) {}] ++ turns 3 3 ++
    [.turn 3 (.ofSecond 4) (.unheard (.transient "timeout"))]

theorem stored_lawful_patched : ∃ c job, Reachable {} c ∧ c.store.jobs.get? "bell" = some job ∧
    job.status.phase = .running ∧ job.status.workerRef = some "bell-worker-0" ∧ job.Lawful := by
  have hreach : Reachable {} (outcome {} patched) := .outcome fun _ _ => trivial
  have hstatus : ((outcome {} patched).store.jobs.get? "bell").map
      (fun job => (job.status.phase, job.status.workerRef)) =
        some (.running, some "bell-worker-0") := by
    decide +kernel
  obtain ⟨job, hjob, hpair⟩ := Option.map_eq_some_iff.mp hstatus
  obtain ⟨hphase, href⟩ := Prod.mk.inj hpair
  exact ⟨_, job, hreach, hjob, hphase, href, stored_lawful hreach hjob⟩

end Cluster

end JobOperator
