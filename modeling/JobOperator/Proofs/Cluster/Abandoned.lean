import JobOperator.Proofs.Cluster.Retries
import JobOperator.Proofs.Cluster.Rollback
import JobOperator.Proofs.Lifecycle.Upkeep
import JobOperator.Proofs.Visit.Tidy

/-!
# Workers that nobody answers for

An invocation that works from an old reading may ask for the worker of an attempt that the job
has moved past by now. It cannot write the status then, and takes the worker back, unless
something comes in between.

* `Invocation.Abandons`: the invocation has asked for the worker of the attempt that it has read,
  and has neither written a status nor deleted the worker.
* `Cluster.Tended`: the invariant. If a job runs, its workers of earlier attempts **were
  abandoned**; if an invocation has listed the workers of a job that has not changed since, those
  of earlier attempts were abandoned or are still to be deleted by it.
* `Cluster.Run.interrupted`: an invocation that has ended, and has abandoned a worker of a job that
  is still there, was cut short, or one of its calls has failed.

All this is about runs in which calls are answered truthfully or fail for the moment
(`Cluster.Event.honest`).
-/

namespace JobOperator

namespace Invocation

/-- The invocation has come to its end, or has been cut short. -/
def ended (inv : Invocation) : Bool :=
  match inv.rest with
  | some (.ask _ _) => false
  | some (.done _) | none => true

/-- The invocation has been cut short, or one of its calls has failed. -/
def Interrupted (inv : Invocation) : Prop :=
  inv.rest = none ∨
    ∃ (call : StoreCall) (e : StoreError), ⟨call, .error e⟩ ∈ inv.log ∧ e.isTransient

/-- The invocation has asked for the worker of the attempt that it has read, and was not refused.
It has not written a status, and it has not deleted the worker. -/
structure Abandons (t : Worker.Template) (inv : Invocation) (read : Job) : Prop where
  first : Reconciler.HasRead inv.job inv.log read
  asked : ∃ reply, ⟨.createWorker (t.launch read), reply⟩ ∈ inv.log ∧
    ∀ e, reply = .error e → e.isTransient
  unwritten : ∀ written stored, ⟨.updateStatus written, .ok stored⟩ ∉ inv.log
  kept : ¬ Reconciler.Removed inv.log (Worker.nameOf read)

variable {t : Worker.Template} {stores : List MemoryStore} {inv : Invocation} {read : Job}

/-- An invocation has done what it owes before every call that it has made. -/
theorem Coherent.upkeep_of_mem {before after : StoreTranscript}
    {x : Script.Exchange StoreCall StoreCall.Answer} (h : inv.Coherent t stores)
    (hlog : inv.log = before ++ x :: after) :
    Reconciler.Upkeep inv.job inv.now before x.question := by
  obtain ⟨s, hleads, -⟩ := h.leads
  exact hleads.rule_of_mem (Reconciler.reconcile_upkeep _ _ _) hlog

/-- An invocation that has come to its end has done what it owes. -/
theorem Coherent.discharged {result : Except ReconcileError Requeue} (h : inv.Coherent t stores)
    (hrest : inv.rest = some (.done result)) : Reconciler.Discharged inv.log := by
  obtain ⟨s, hleads, hs⟩ := h.leads
  obtain rfl := hs _ hrest
  exact (Reconciler.reconcile_upkeep _ _ _).leads hleads

/-- Who asks for a worker has read that the job waits. -/
theorem Coherent.pending_of_asked (h : inv.Coherent t stores)
    (hread : Reconciler.HasRead inv.job inv.log read) {launch : Worker.Launch}
    {reply : Except StoreError Worker} (hlog : ⟨.createWorker launch, reply⟩ ∈ inv.log) :
    read.status.phase = .pending := by
  obtain ⟨before, after, hsplit⟩ := List.append_of_mem hlog
  obtain ⟨read', hread', -, hphase, -⟩ := h.rule_of_mem hsplit
  rw [hsplit] at hread
  obtain rfl := (hread'.append _).unique hread
  exact hphase

/-- As long as nothing is written for a job that waits, its current worker is not deleted. -/
theorem Coherent.spares (h : inv.Coherent t stores)
    (hread : Reconciler.HasRead inv.job inv.log read) (hphase : read.status.phase = .pending)
    (unwritten : Reconciler.Unwritten inv.log) :
    ¬ Reconciler.Removed inv.log (Worker.nameOf read) := by
  rintro ⟨reply, hlog, -⟩
  obtain ⟨before, after, hsplit⟩ := List.append_of_mem hlog
  obtain ⟨read', hread', hrem⟩ := h.rule_of_mem hsplit
  rw [hsplit] at hread unwritten
  obtain rfl := (hread'.append _).unique hread
  have hbefore : Reconciler.Unwritten before := fun x hx =>
    unwritten x (List.mem_append_left _ hx)
  generalize hname : Worker.nameOf read' = n at hrem
  cases hrem with
  | superseded _ _ _ old =>
    unfold Reconciler.superseded at old
    rw [← hname, Worker.nameOf, Worker.attemptOf?_nameFor] at old
    exact absurd (of_decide_eq_true old) (UInt32.lt_irrefl _)
  | residual _ _ _ terminal =>
    rw [hphase] at terminal
    cases terminal
  | rolledBack last =>
    rw [last] at hbefore
    exact hbefore.not_mem (List.mem_append_right _ (List.mem_cons_of_mem _ (List.mem_cons_self ..)))
  | retried _ last =>
    rw [last] at hbefore
    exact hbefore.not_mem (List.mem_append_right _ (List.mem_cons_self ..))

end Invocation

namespace Cluster

/-- An event in which calls are answered truthfully, or fail for the moment. -/
def Event.honest : Event → Prop
  | .turn _ _ (.stale _) => False
  | .turn _ _ (.refused e) | .turn _ _ (.unheard e) => e.isTransient
  | _ => True

instance : (e : Event) → Decidable e.honest
  | .turn _ _ (.stale _) => isFalse id
  | .turn _ _ (.refused e) | .turn _ _ (.unheard e) =>
    inferInstanceAs (Decidable (e.isTransient = true))
  | .turn _ _ .answered => isTrue trivial
  | .submit .. | .withdraw .. | .report .. | .lose .. | .start .. | .cut .. => isTrue trivial

/-- The worker of this attempt at the job was abandoned. -/
def Forsaken (t : Worker.Template) (c : Cluster) (job : Job) (k : UInt32) : Prop :=
  ∃ inv ∈ c.invocations, ∃ read, inv.Abandons t read ∧ job.SameIdentity read ∧
    read.status.retries = k

/-- Workers of earlier attempts are accounted for. -/
structure Tended (t : Worker.Template) (c : Cluster) : Prop where
  /-- if the job runs, they were abandoned -/
  running : ∀ name job k worker, c.store.jobs.get? name = some job →
    job.status.phase = .running → c.store.workers.get? (Worker.nameFor name k) = some worker →
    k < job.status.retries → c.Forsaken t job k
  /-- if an invocation has listed the workers of the job, they were abandoned or are on its
  list -/
  listed : ∀ inv ∈ c.invocations, ∀ read workers k worker,
    Reconciler.HasRead inv.job inv.log read → c.store.jobs.get? read.name = some read →
    ⟨.listWorkers (some read.name), .ok workers⟩ ∈ inv.log →
    c.store.workers.get? (Worker.nameFor read.name k) = some worker → k < read.status.retries →
    c.Forsaken t read k ∨ (∃ w ∈ workers, w.name = Worker.nameFor read.name k) ∧
      ¬ Reconciler.Removed inv.log (Worker.nameFor read.name k)

variable {t : Worker.Template} {allowed : Event → Prop} {c c' : Cluster} {e : Event}
  {inv : Invocation} {read job job' : Job} {k : UInt32} {name : String}

/-! ## Honest events -/

/-- A call is answered by the store as it is, or fails for the moment. -/
theorem meet_honest {i : Nat} {clock : Instant} {call : StoreCall} {fate : Fate}
    {reply : call.Answer} {store : MemoryStore} (ok : (Event.turn i clock fate).honest)
    (h : c.meet clock call fate = some (reply, store)) :
    c.store.answer clock call = (reply, store) ∨ ∃ e : StoreError, e.isTransient ∧
      reply = .error e := by
  cases fate with
  | answered => exact .inl (Option.some.inj h)
  | stale => exact ok.elim
  | refused e | unheard e => exact .inr ⟨e, ok, (Prod.mk.inj (Option.some.inj h)).1.symm⟩

/-- A worker is gone once an invocation was told so. -/
theorem told_of_deleted {i : Nat} {clock : Instant} {fate : Fate} {n : String}
    {reply : Except StoreError Unit} {store : MemoryStore}
    (ok : (Event.turn i clock fate).honest)
    (h : c.meet clock (.deleteWorker n) fate = some (reply, store))
    (hgone : ∀ e, reply = .error e → e.isNotFound) : store.workers.get? n = none := by
  rcases meet_honest ok h with hanswer | ⟨e, he, heq⟩
  · have habsent := (c.store.deleteWorker_gone n).2
    rwa [show (c.store.deleteWorker n).2 = store from congrArg Prod.snd hanswer] at habsent
  · exact absurd (hgone e heq) (StoreError.not_isNotFound (StoreError.isMishap_of_isTransient he))

/-! ## Where workers of earlier attempts come from -/

/-- A worker that is stored after an event was stored before it, or has been asked for by an
invocation that has done nothing else so far. -/
theorem Sound.launched (h : Sound t c) (hstep : c.next t e = some c') (ok : e.honest)
    (hjob' : c'.store.jobs.get? name = some job') {worker : Worker}
    (hw' : c'.store.workers.get? (Worker.nameFor name k) = some worker) :
    (∃ w, c.store.workers.get? (Worker.nameFor name k) = some w) ∨ c'.Forsaken t job' k := by
  rcases next_cases hstep with ⟨hstores, -⟩ | ⟨-, -, call, horigin, hchange⟩
  · rw [(List.cons.inj hstores).1] at hw'
    exact .inl ⟨worker, hw'⟩
  generalize hs : c'.store = s at hchange hw' hjob'
  cases hchange with
  | nothing | submitted | written => exact .inl ⟨worker, hw'⟩
  | withdrawn => exact .inl ⟨worker, (MemoryStore.get?_of_filter hw').1⟩
  | lost =>
    rw [Table.get?_erase] at hw'
    split at hw'
    · cases hw'
    · exact .inl ⟨worker, hw'⟩
  | reported _ _ found =>
    rw [Table.get?_insert] at hw'
    split at hw'
    · next hname => exact .inl ⟨_, hname ▸ found⟩
    · exact .inl ⟨worker, hw'⟩
  | @launched launch clock owner found uid free =>
    rw [Table.get?_insert] at hw'
    split at hw'
    · next hname =>
      -- only invocations ask for workers
      cases horigin with
      | @turned i clock' fate inv _ resume reply before rest after met =>
        have hmem := List.mem_of_getElem? before
        have hcoh := h.coherent inv hmem
        obtain ⟨read, hread, hunwritten, hphase, -, rfl⟩ := hcoh.rule rest
        obtain ⟨rfl, rfl⟩ := Worker.nameFor_inj (hname : Worker.nameOf read = _)
        obtain rfl := Option.some.inj (found.symm.trans hjob')
        refine .inr ⟨_, List.mem_of_getElem? after, read, ⟨hread.append _, ⟨reply,
          List.mem_append_right _ (List.mem_singleton.mpr rfl), fun e he => ?_⟩,
          fun written stored hlog => ?_, fun hrem => ?_⟩,
          h.same owner read (.of_store found) (h.read hmem hread).1 uid.symm, rfl⟩
        · rcases meet_honest ok met with hanswer | ⟨e', he', heq⟩
          · have howned : c.store.Owns (t.launch read) :=
              (Option.any_eq_true _ _).mpr ⟨owner, found, decide_eq_true uid⟩
            have hcreated : (reply, c'.store) = _ := hanswer.symm.trans
              (MemoryStore.createWorker_free howned free)
            rw [(Prod.mk.inj hcreated).1] at he
            cases he
          · rw [heq] at he
            exact Except.error.inj he ▸ he'
        · rcases List.mem_append.mp hlog with hlog | hlog
          · exact hunwritten.not_mem hlog
          · cases List.mem_singleton.mp hlog
        · obtain ⟨reply', hlog, hgone⟩ := hrem
          rcases List.mem_append.mp hlog with hlog | hlog
          · exact hcoh.spares hread hphase hunwritten ⟨reply', hlog, hgone⟩
          · cases List.mem_singleton.mp hlog
    · exact .inl ⟨worker, hw'⟩

/-- What was abandoned stays so while the worker is there, and the job is at a later attempt. -/
theorem Sound.forsaken_next (h : Sound t c) (hstep : c.next t e = some c') (ok : e.honest)
    (hforsaken : c.Forsaken t job k) (hsame : job.SameIdentity job')
    (hjob' : c'.store.jobs.get? job'.name = some job') {worker : Worker}
    (hw' : c'.store.workers.get? (Worker.nameFor job'.name k) = some worker)
    (hlt : k < job'.status.retries) : c'.Forsaken t job' k := by
  obtain ⟨inv, hinv, read, ⟨hread, ⟨reply, hasked, htransient⟩, hunwritten, hkept⟩, hread', rfl⟩ :=
    hforsaken
  have hsame' := hsame.symm.trans hread'
  have hcoh := h.coherent inv hinv
  obtain ⟨inv', hinv',
    ⟨hjob, hlog⟩ | ⟨i, clock, fate, call, resume, new, rfl, hrest, hmeet, rfl⟩⟩ :=
    next_hears hstep hinv
  · refine ⟨inv', hinv', read, ⟨?_, ?_, ?_, ?_⟩, hsame', rfl⟩
    · rw [hjob, hlog]
      exact hread
    · rw [hlog]
      exact ⟨reply, hasked, htransient⟩
    · rw [hlog]
      exact hunwritten
    · rw [hlog]
      exact hkept
  refine ⟨_, hinv', read, ⟨hread.append _, ⟨reply, List.mem_append_left _ hasked, htransient⟩,
    fun written stored hlog => ?_, fun hrem => ?_⟩, hsame', rfl⟩
  · rcases List.mem_append.mp hlog with hlog | hlog
    · exact hunwritten written stored hlog
    -- the write would have left the job at the attempt that was read
    cases List.mem_singleton.mp hlog
    obtain ⟨read', seen, hread'', -, -, -, hwritten, -⟩ := hcoh.rule hrest
    obtain rfl := hread.unique hread''
    rcases meet_honest ok hmeet with hanswer | ⟨e, -, heq⟩
    · have hphase := hcoh.pending_of_asked hread hasked
      have hretries := (read.step_transition seen inv.now
        (inv.reconciler t).pacing).retries_of_pending hphase
      obtain ⟨hfound, hstatus⟩ := MemoryStore.updateStatus_stored (congrArg Prod.fst hanswer)
      rw [show (c.store.updateStatus written).2 = c'.store from congrArg Prod.snd hanswer,
        hwritten, hsame'.name, hjob'] at hfound
      obtain rfl := Option.some.inj hfound
      rw [hstatus, hwritten, hretries] at hlt
      exact UInt32.lt_irrefl _ hlt
    · cases heq
  · obtain ⟨reply', hlog, hgone⟩ := hrem
    rcases List.mem_append.mp hlog with hlog | hlog
    · exact hkept ⟨reply', hlog, hgone⟩
    cases List.mem_singleton.mp hlog
    have hname : Worker.nameOf read = Worker.nameFor job'.name read.status.retries := by
      rw [← hsame'.name]
      rfl
    rw [← hname, told_of_deleted ok hmeet hgone] at hw'
    cases hw'

/-- If a job runs after an event, its workers of earlier attempts were abandoned. -/
theorem Run.running_next (h : Run t allowed c) (htended : c.Tended t)
    (hu : ∀ uid, c'.Unwrapped uid) (hstep : c.next t e = some c') (ok : e.honest)
    (hjob' : c'.store.jobs.get? name = some job') (hphase : job'.status.phase = .running)
    {worker : Worker} (hw' : c'.store.workers.get? (Worker.nameFor name k) = some worker)
    (hlt : k < job'.status.retries) : c'.Forsaken t job' k := by
  have hs := h.sound
  rcases hs.launched hstep ok hjob' hw' with ⟨w, hw⟩ | hnew
  case inr => exact hnew
  have hname : job'.name = name := (hs.next hstep).consistent_now.named name job' hjob'
  -- it is enough that the worker had been abandoned before
  suffices hold : ∃ job, job.SameIdentity job' ∧ c.Forsaken t job k by
    obtain ⟨job, hsame, hforsaken⟩ := hold
    subst hname
    exact hs.forsaken_next hstep ok hforsaken hsame hjob' hw' hlt
  cases hs.arrives hstep hjob' with
  | kept found => exact ⟨job', .refl job', htended.running name job' k w found hphase hw hlt⟩
  | born _ _ _ _ _ outcome =>
    rw [outcome] at hphase
    cases hphase
  | @written i clock fate inv read job seen reply rest event _ found write after _ =>
    refine ⟨job, write.sameIdentity, ?_⟩
    have huid := write.sameIdentity.uid
    obtain rfl := h.read_eq ((hu job'.uid).before hstep) found huid.symm write
    obtain rfl : read.name = name := by rw [← write.sameIdentity.name, hname]
    have hstatus := write.status
    rw [hstatus] at hphase
    obtain ⟨hbefore, -, -, hkept⟩ := Job.step_running hphase
    rw [hstatus, hkept] at hlt
    rcases hbefore with ⟨hpending, honTime⟩ | hrunning
    case inr => exact htended.running read.name read k w found hrunning hw hlt
    -- the writer has swept before
    subst event
    obtain ⟨old, hold, hjob, hlog⟩ := before_turn hstep after
    have hcoh := (hs.next hstep).coherent _ (List.mem_of_getElem? after)
    obtain ⟨read', hread', hready⟩ := hcoh.upkeep_of_mem rfl
    obtain rfl := write.first.unique hread'
    obtain ⟨workers, hlisted, hgone⟩ := hready hpending honTime
    rw [← hlog] at hlisted
    rcases htended.listed old (List.mem_of_getElem? hold) read workers k w
      (by rw [hjob, hlog]; exact write.first) found hlisted hw hlt with
      hforsaken | ⟨⟨listed, hmem, hlistedName⟩, hkept⟩
    · exact hforsaken
    · refine absurd ?_ hkept
      rw [hlog, ← hlistedName]
      refine hgone listed hmem ?_
      unfold Reconciler.superseded
      rw [hlistedName, Worker.attemptOf?_nameFor]
      exact decide_eq_true hlt

/-- If an invocation has listed the workers of a job, which is as it has read it, then those of
earlier attempts were abandoned, or are still to be deleted. -/
theorem Run.listed_next (h : Run t allowed c) (htended : c.Tended t)
    (hu : ∀ uid, c'.Unwrapped uid) (hstep : c.next t e = some c') (ok : e.honest)
    {inv' : Invocation} (hinv' : inv' ∈ c'.invocations)
    (hread : Reconciler.HasRead inv'.job inv'.log read)
    (hjob' : c'.store.jobs.get? read.name = some read) {workers : List Worker}
    (hlisted : ⟨.listWorkers (some read.name), .ok workers⟩ ∈ inv'.log) {worker : Worker}
    (hw' : c'.store.workers.get? (Worker.nameFor read.name k) = some worker)
    (hlt : k < read.status.retries) :
    c'.Forsaken t read k ∨ (∃ w ∈ workers, w.name = Worker.nameFor read.name k) ∧
      ¬ Reconciler.Removed inv'.log (Worker.nameFor read.name k) := by
  have hs := h.sound
  rcases hs.launched hstep ok hjob' hw' with ⟨w, hw⟩ | hnew
  case inr => exact .inl hnew
  -- what was known of an invocation before the event
  have hold : ∀ inv ∈ c.invocations, Reconciler.HasRead inv.job inv.log read →
      ⟨.listWorkers (some read.name), .ok workers⟩ ∈ inv.log →
      c'.Forsaken t read k ∨ (∃ w ∈ workers, w.name = Worker.nameFor read.name k) ∧
        ¬ Reconciler.Removed inv.log (Worker.nameFor read.name k) := by
    intro inv hinv hread hlisted
    have found := h.stored_before (hu read.uid) hstep (hs.read hinv hread).1 hjob'
    exact (htended.listed inv hinv read workers k w hread found hlisted hw hlt).imp_left
      fun hforsaken => hs.forsaken_next hstep ok hforsaken (.refl read) hjob' hw' hlt
  rcases next_log_cases hstep hinv' with hnil | ⟨inv, hinv, hjob, hlog⟩ |
    ⟨i, clock, fate, inv, call, resume, reply, rfl, hinv, hrest, hmeet, rfl⟩
  · rw [hnil] at hlisted
    exact absurd hlisted List.not_mem_nil
  · rw [hjob, hlog] at hread
    rw [hlog] at hlisted ⊢
    exact hold inv hinv hread hlisted
  rcases List.mem_append.mp hlisted with hlisted | hlisted
  · refine (hold inv hinv (hread.of_append hlisted) hlisted).imp_right fun ⟨hmem, hkept⟩ =>
      ⟨hmem, fun ⟨reply', hlog, hgone⟩ => ?_⟩
    rcases List.mem_append.mp hlog with hlog | hlog
    · exact hkept ⟨reply', hlog, hgone⟩
    -- the worker would be gone
    cases List.mem_singleton.mp hlog
    rw [told_of_deleted ok hmeet hgone] at hw'
    cases hw'
  · -- the workers are listed by this very event
    cases List.mem_singleton.mp hlisted
    have hcons := hs.consistent_now
    obtain ⟨job, hlog⟩ := ((hs.next hstep).coherent _ hinv').upkeep_of_mem rfl
    rcases meet_honest ok hmeet with hanswer | ⟨e, -, heq⟩
    · obtain rfl := Except.ok.inj (Prod.mk.inj hanswer).1
      have hname := (hcons.placed _ w hw).named
      refine .inr ⟨⟨w, hcons.mem_listWorkers_iff.mpr ⟨k, hname, hw⟩, hname⟩, ?_⟩
      rintro ⟨reply, hdeleted, -⟩
      change _ ∈ inv.log ++ _ at hdeleted
      rw [hlog] at hdeleted
      rcases List.mem_cons.mp hdeleted with heq | hdeleted
      · cases heq
      · cases List.mem_singleton.mp hdeleted
    · cases heq

/-- **Workers of earlier attempts are accounted for.** -/
theorem Run.tended (h : Run t Event.honest c) (hu : ∀ uid, c.Unwrapped uid) : c.Tended t := by
  induction h with
  | start => exact ⟨fun _ _ _ _ hjob => (by cases hjob), fun _ hinv => absurd hinv List.not_mem_nil⟩
  | @next c c' e before ok step ih =>
    have ih := ih fun uid => (hu uid).before step
    exact ⟨fun _ _ _ _ hjob hphase hw hlt => before.running_next ih hu step ok hjob hphase hw hlt,
      fun _ hinv _ _ _ _ hread hjob hlisted hw hlt =>
        before.listed_next ih hu step ok hinv hread hjob hlisted hw hlt⟩

/-! ## Who abandons a worker -/

/-- Calls are refused for a reason. A write is refused because another writer came first, or because
the job is gone; a deletion because there is nothing to delete. -/
structure Candid (c : Cluster) (inv : Invocation) : Prop where
  write : ∀ written e, ⟨.updateStatus written, .error e⟩ ∈ inv.log →
    e.isTransient ∨ e.isConflict ∨ c.Gone written.uid
  delete : ∀ n e, ⟨.deleteWorker n, .error e⟩ ∈ inv.log → e.isTransient ∨ e.isNotFound

/-- What an invocation writes is of the incarnation that it has read. -/
theorem Sound.written (h : Sound t c) (hinv : inv ∈ c.invocations) {written : Job}
    {reply : Except StoreError Job} (hlog : ⟨.updateStatus written, reply⟩ ∈ inv.log) :
    ∃ read, Reconciler.HasRead inv.job inv.log read ∧ written.name = read.name ∧
      written.uid = read.uid := by
  obtain ⟨before, after, hsplit, read, seen, hread, -, -, -, rfl, -⟩ := h.wrote hinv hlog
  rw [hsplit]
  exact ⟨read, hread.append _, rfl, rfl⟩

/-- In honest runs, calls are refused for a reason. -/
theorem Run.candid (h : Run t Event.honest c) : ∀ inv ∈ c.invocations, c.Candid inv := by
  induction h with
  | start => exact fun inv hinv => absurd hinv List.not_mem_nil
  | @next c c' e before ok step ih =>
    have hs := before.sound
    have hwrite : ∀ inv ∈ c.invocations, ∀ written e, ⟨.updateStatus written, .error e⟩ ∈ inv.log →
        e.isTransient ∨ e.isConflict ∨ c'.Gone written.uid := by
      intro inv hinv written e hlog
      obtain ⟨read, hread, -, huid⟩ := hs.written hinv hlog
      refine ((ih inv hinv).write written e hlog).imp_right (·.imp_right ?_)
      rw [huid]
      exact hs.gone_next step (hs.issued read (hs.read hinv hread).1)
    intro inv' hinv'
    rcases next_log_cases step hinv' with hnil | ⟨inv, hinv, -, hlog⟩ |
      ⟨i, clock, fate, inv, call, resume, reply, rfl, hinv, hrest, hmeet, rfl⟩
    · constructor <;> rw [hnil] <;> exact fun _ _ hlog => absurd hlog List.not_mem_nil
    · constructor <;> rw [hlog]
      · exact hwrite inv hinv
      · exact (ih inv hinv).delete
    constructor
    · intro written e hlog
      rcases List.mem_append.mp hlog with hlog | hlog
      · exact hwrite inv hinv written e hlog
      cases List.mem_singleton.mp hlog
      rcases meet_honest ok hmeet with hanswer | ⟨e', he', heq⟩
      · obtain ⟨hsame, hconflict | habsent⟩ :=
          MemoryStore.updateStatus_eq_error (congrArg Prod.fst hanswer)
        · exact .inr (.inl hconflict)
        refine .inr (.inr fun name job hjob huid => ?_)
        rw [show c'.store = c.store from (congrArg Prod.snd hanswer).symm.trans hsame] at hjob
        -- the job would be stored under the name that was read
        obtain ⟨read, seen, hread, -, -, -, rfl, -⟩ := (hs.coherent inv hinv).rule hrest
        have hname := (hs.same read job (hs.read hinv hread).1 (.of_store hjob) huid).name
        rw [← hs.consistent_now.named name job hjob, hname] at hjob
        rw [show c.store.jobs.get? read.name = none from habsent] at hjob
        cases hjob
      · exact .inl (Except.error.inj heq ▸ he')
    · intro n e hlog
      rcases List.mem_append.mp hlog with hlog | hlog
      · exact (ih inv hinv).delete n e hlog
      cases List.mem_singleton.mp hlog
      rcases meet_honest ok hmeet with hanswer | ⟨e', he', heq⟩
      · exact .inr (MemoryStore.deleteWorker_eq_error (congrArg Prod.fst hanswer))
      · exact .inl (Except.error.inj heq ▸ he')

/-- **Only what is interrupted abandons a worker**, if the job is still there at the end. -/
theorem Run.interrupted (h : Run t Event.honest c) (hinv : inv ∈ c.invocations)
    (hended : inv.ended) (habandons : inv.Abandons t read)
    (hjob : c.store.jobs.get? name = some job) (huid : job.uid = read.uid) : inv.Interrupted := by
  have hs := h.sound
  obtain ⟨hread, ⟨reply, hasked, htransient⟩, hunwritten, hkept⟩ := habandons
  cases hrest : inv.rest with
  | none => exact .inl hrest
  | some s =>
  cases s with
  | ask call resume =>
    unfold Invocation.ended at hended
    rw [hrest] at hended
    cases hended
  | done result =>
  right
  cases reply with
  | error e => exact ⟨_, e, hasked, htransient e rfl⟩
  | ok worker =>
    rcases (hs.coherent inv hinv).discharged hrest _ worker hasked with
      ⟨written, stored, hlog⟩ | ⟨written, e, hlog, hconflict⟩ | ⟨reply, hlog⟩
    · exact absurd hlog (hunwritten written stored)
    · rcases (h.candid inv hinv).write written e hlog with he | he | hgone
      · exact ⟨_, e, hlog, he⟩
      · exact absurd he hconflict
      · obtain ⟨read', hread', -, heq⟩ := hs.written hinv hlog
        obtain rfl := hread.unique hread'
        exact absurd (huid.trans heq.symm) (hgone name job hjob)
    · rw [show worker.name = Worker.nameOf read from hs.created hinv hasked] at hlog
      cases reply with
      | ok _ => exact absurd ⟨_, hlog, nofun⟩ hkept
      | error e =>
        rcases (h.candid inv hinv).delete _ e hlog with he | he
        · exact ⟨_, e, hlog, he⟩
        · exact absurd ⟨_, hlog, fun e' he' => Except.error.inj he' ▸ he⟩ hkept

end Cluster

end JobOperator
