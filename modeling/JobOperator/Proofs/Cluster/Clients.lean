import JobOperator.Proofs.Api.Submission
import JobOperator.Proofs.Cluster.Records
import JobOperator.Proofs.Launcher.Undisturbed

/-!
# Who else calls the store

Two programs share the store with the reconciler: the interface, which handles the requests of
clients, and the launcher, which keeps containers in step with workers. The events of a cluster
stand for what they do.

* `Cluster.Event.accepted`: an event that these programs and the reconciler bring about. Jobs are
  submitted through the interface, which checks them.
* `StoreCall.Outer`: the calls that these programs make.
* `Api.handle_obeys`, `Launcher.sync_obeys`: they make no others. A request is a single call,
  so it is a single event.
* `Cluster.next_of_outer`: what such a call does to the store is what an event does to it. Hence
  `Cluster.Run.handle`, `Cluster.Run.cycle`: **a request, and a cycle of the launcher, leave behind
  a store of a run** if they find one.
* `Cluster.Run.proper`: in such runs, whatever has been stored could be submitted. So it is, and
  jobs are lawful, after any request (`Cluster.Run.proper_of_handle`).
-/

namespace JobOperator

/-- An event that the programs bring about. A job that is submitted has passed the checks. -/
def Cluster.Event.accepted : Event → Prop
  | .submit submission _ _ => Api.validate submission = .ok ()
  | _ => True

instance : DecidablePred Cluster.Event.accepted
  | .submit submission _ _ => inferInstanceAs (Decidable (Api.validate submission = .ok ()))
  | .withdraw .. | .report .. | .lose .. | .start .. | .turn .. | .cut .. => isTrue trivial

/-- A call that the surroundings of the reconciler make. `birth` is what a job is given if one is
submitted. -/
inductive StoreCall.Outer (birth : Option Api.Birth) : StoreCall → Prop where
  | reads {call : StoreCall} (reads : call.reads) : Outer birth call
  | submits {submission : Job.Submission} {b : Api.Birth} (valid : Api.validate submission = .ok ())
      (given : birth = some b) : Outer birth (.createJob (submission.toJob b.uid b.createdAt))
  | withdraws (job : String) : Outer birth (.deleteJob job)
  | reports (worker : String) (phase : Worker.Phase) : Outer birth (.updateWorkerPhase worker phase)

namespace Api

/-- The one call of a request. -/
def Single (birth : Birth) (log : StoreTranscript) (call : StoreCall) : Prop :=
  log = [] ∧ call.Outer (some birth)

variable {birth : Birth}

theorem named_obeys {act : String → StoreScript Response} (segment : String)
    (h : ∀ name, (act name).Obeys (Single birth) (fun _ _ => True) []) :
    (named segment act).Obeys (Single birth) (fun _ _ => True) [] := by
  unfold named
  split
  · exact h _
  · trivial

theorem tell_obeys (route : Route) :
    (tell route).Obeys (Single birth) (fun _ _ => True) [] := by
  cases route with
  | health | jobs =>
    refine StoreScript.obeys_call ⟨rfl, .reads rfl⟩ fun reply => ?_
    cases reply <;> trivial
  | job segment =>
    refine named_obeys segment fun name => StoreScript.obeys_call ⟨rfl, .reads rfl⟩ fun reply => ?_
    cases reply <;> trivial

theorem submit_obeys (request : Request) (birth : Birth) :
    (submit request birth).Obeys (Single birth) (fun _ _ => True) [] := by
  unfold submit
  split
  · trivial
  · split
    · trivial
    · next hvalid =>
      refine StoreScript.obeys_call ⟨rfl, .submits hvalid rfl⟩ fun reply => ?_
      cases reply <;> trivial

/-- A request makes at most one call to the store. -/
theorem handle_obeys (request : Request) (birth : Birth) :
    (handle request birth).Obeys (Single birth) (fun _ _ => True) [] := by
  unfold handle
  split
  · trivial
  · split
    · exact tell_obeys _
    · exact (tell_obeys _).bind fun _ _ _ => trivial
    · exact submit_obeys request birth
    · refine named_obeys _ fun name =>
        StoreScript.obeys_call ⟨rfl, .withdraws name⟩ fun reply => ?_
      cases reply <;> trivial
    · trivial

end Api

namespace Launcher

/-- What the launcher asks of the store. -/
def Reports (_ : SyncTranscript) : Ask → Prop
  | .store call => call.Outer none
  | .host _ | .notify _ => True

/-- A cycle of the launcher reads the store, and reports the phases of workers. -/
theorem sync_obeys : sync.Obeys Reports (fun _ _ => True) [] := by
  refine sync_grounded.weaken ?_ fun _ _ _ => trivial
  intro log q hgrounds
  cases q with
  | store call =>
    cases call with
    | listWorkers => exact .reads rfl
    | updateWorkerPhase worker phase => exact .reports worker phase
    | _ => exact hgrounds.elim
  | host | notify => trivial

end Launcher

namespace Cluster

variable {t : Worker.Template} {c : Cluster} {birth : Option Api.Birth} {call : StoreCall}

/-- What a call of the surroundings does to the store is nothing, or is what an event does. A
submitted job has a uid of its own. -/
theorem next_of_outer (t : Worker.Template) (c : Cluster) (clock : Instant)
    (h : call.Outer birth) (fresh : ∀ b, birth = some b → b.uid ∉ c.issued) :
    (c.store.answer clock call).2 = c.store ∨
      ∃ e c', e.accepted ∧ c.next t e = some c' ∧ c'.store = (c.store.answer clock call).2 := by
  cases h with
  | reads hreads =>
    left
    cases call <;> first | rfl | cases hreads
  | submits valid given =>
    right
    exact ⟨.submit _ _ _, _, valid, if_neg (fresh _ given), rfl⟩
  | withdraws job => exact .inr ⟨.withdraw job, _, trivial, rfl, rfl⟩
  | reports worker phase => exact .inr ⟨.report worker phase, _, trivial, rfl, rfl⟩

namespace Run

variable (h : Run t Event.accepted c)

include h

/-- What a call of the surroundings leaves behind is a store of a run. -/
theorem outer (clock : Instant) (houter : call.Outer birth)
    (fresh : ∀ b, birth = some b → b.uid ∉ c.issued) :
    ∃ c', Run t Event.accepted c' ∧ c'.store = (c.store.answer clock call).2 := by
  obtain hsame | ⟨e, c', haccepted, hnext, hstore⟩ := next_of_outer t c clock houter fresh
  · exact ⟨c, h, hsame.symm⟩
  · exact ⟨c', h.next haccepted hnext, hstore⟩

/-- **What a request leaves behind is a store of a run.** -/
theorem handle (request : Api.Request) (birth : Api.Birth) (clock : Instant)
    (fresh : birth.uid ∉ c.issued) : ∃ c', Run t Event.accepted c' ∧
      c'.store = ((Api.handle request birth).account clock c.store).store := by
  have hobeys := Api.handle_obeys request birth
  cases hscript : Api.handle request birth with
  | done response => exact ⟨c, h, rfl⟩
  | ask call resume =>
    rw [hscript] at hobeys
    obtain ⟨⟨-, houter⟩, hrest⟩ := hobeys
    rw [Script.account]
    -- the rule allows no second call
    cases hresume : resume (c.store.answer clock call).1 with
    | done response =>
      exact h.outer clock houter fun b hb => (Option.some.inj hb) ▸ fresh
    | ask call' resume' =>
      have hsecond := hrest (c.store.answer clock call).1
      rw [hresume] at hsecond
      cases hsecond.1.1

/-- What a script of the launcher leaves behind is a store of a run. -/
theorem conduct {α : Type} (clock : Instant) {script : Launcher.SyncScript α}
    {s : Launcher.Setting} {log : Launcher.SyncTranscript} (hs : s.store = c.store)
    (hobeys : script.Obeys Launcher.Reports (fun _ _ => True) log) :
    ∃ c', Run t Event.accepted c' ∧
      c'.store = (script.conduct (Launcher.Setting.answer clock) s).state.store := by
  induction script generalizing s c log with
  | done => exact ⟨c, h, hs.symm⟩
  | ask q resume ih =>
    obtain ⟨hreports, hrest⟩ := hobeys
    have hanswered : ∃ c', Run t Event.accepted c' ∧
        (Launcher.Setting.answer clock q s).2.store = c'.store := by
      cases q with
      | store call =>
        obtain ⟨c', hrun, hstore⟩ := h.outer clock hreports nofun
        rw [← hs] at hstore
        exact ⟨c', hrun, hstore.symm⟩
      | host | notify => exact ⟨c, h, hs⟩
    obtain ⟨c', hrun, hstore⟩ := hanswered
    exact ih _ hrun hstore (hrest _)

/-- **What a cycle of the launcher leaves behind is a store of a run.** -/
theorem cycle (containers : Table ContainerState) (clock : Instant) :
    ∃ c', Run t Event.accepted c' ∧
      c'.store = ((⟨c.store, containers⟩ : Launcher.Setting).cycle clock).state.store :=
  h.conduct clock rfl Launcher.sync_obeys

/-- Whatever has been stored could be submitted. -/
theorem proper {job : Job} (hrec : c.Recorded job) : Api.Proper ⟨job.name, job.spec⟩ := by
  induction h generalizing job with
  | start => exact absurd hrec (not_recorded_start job)
  | @next c c' e before ok step ih =>
    rcases before.sound.descends step hrec with
      ⟨old, hold, hsame⟩ | ⟨submission, uid, createdAt, rfl, -, -, rfl⟩
    · rw [hsame.name, hsame.spec]
      exact ih hold
    · exact Api.validate_eq_ok_iff.mp ok

/-- **Whatever is requested**, all jobs that are stored then have passed the checks, and they are
lawful. -/
theorem proper_of_handle (request : Api.Request) (birth : Api.Birth) (clock : Instant)
    (fresh : birth.uid ∉ c.issued) {name : String} {job : Job}
    (found : ((Api.handle request birth).account clock c.store).store.jobs.get? name = some job) :
    Api.Proper ⟨job.name, job.spec⟩ ∧ job.Lawful := by
  obtain ⟨c', hrun, hstore⟩ := h.handle request birth clock fresh
  rw [← hstore] at found
  exact ⟨hrun.proper (.of_store found), hrun.sound.lawful job (.of_store found)⟩

end Run

end Cluster

end JobOperator
