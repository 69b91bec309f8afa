import JobOperator.Proofs.Controller.Loop

/-!
# No place is lost and no request is forgotten

* `Loop.Sound`: what is always so. The looks that hold a place are the busy names of the queue, each
  once, and there are never more of them than places. Every event keeps this (`Loop.Sound.after`).
* `Loop.Settles`: what the loop does when it hears that a look has ended.
* `Loop.Alert`: what is so while the loop waits and has a free place.
* `Loop.runs_safe`: all of this holds of every run.
-/

namespace JobOperator

namespace WorkQueue

variable {q : WorkQueue} {calls : List Call} {name : String} {now : Moment} {limit : Nat}

/-- A list of calls that only ask for names. -/
def Asking (calls : List Call) : Prop := ∀ call ∈ calls, ∃ job due, call = .schedule job due

/-- Asking for names makes no name busy. -/
theorem busy_performAll (h : q.WellKept) (hasks : Asking calls) :
    (q.performAll calls).ledger.busy = q.ledger.busy := by
  induction calls generalizing q with
  | nil => rfl
  | cons call calls ih =>
    obtain ⟨hcall, hcalls⟩ := List.forall_mem_cons.mp hasks
    obtain ⟨job, due, rfl⟩ := hcall
    exact (ih (h.schedule job due) hcalls).trans (congrArg (·.busy) (ledger_schedule h job due))

/-- Asking for other names changes nothing for a name. -/
theorem pending_performAll_of_not_mem (h : q.WellKept) (hasks : Asking calls)
    (hnot : ∀ due, .schedule name due ∉ calls) :
    (q.performAll calls).ledger.pending name = q.ledger.pending name := by
  induction calls generalizing q with
  | nil => rfl
  | cons call calls ih =>
    obtain ⟨hcall, hcalls⟩ := List.forall_mem_cons.mp hasks
    obtain ⟨job, due, rfl⟩ := hcall
    refine (ih (h.schedule job due) hcalls fun t ht => hnot t (List.mem_cons_of_mem _ ht)).trans ?_
    refine (congrArg (·.pending name) (ledger_schedule h job due)).trans (if_neg ?_)
    rintro rfl
    exact hnot due (List.mem_cons_self ..)

/-- If there was room for more names, all that were due have been handed out. -/
theorem mem_popDue_of_room (h : q.WellKept) (hroom : (q.popDue now limit).1.length < limit)
    (hdue : q.ledger.Due now name) : name ∈ (q.popDue now limit).1 := by
  have hall : (q.popDue now limit).1 = q.dueAt now := by
    simp only [popDue, List.length_take] at hroom ⊢
    exact List.take_of_length_le (by omega)
  rw [hall]
  exact (due_iff h).mp hdue

end WorkQueue

namespace Loop

/-- What is always so. -/
structure Sound (maxConcurrent : Nat) (s : Loop) : Prop where
  kept : s.controller.queue.WellKept
  limit : s.controller.maxConcurrent = maxConcurrent
  nodup : s.looks.Nodup
  /-- the busy names are the jobs for which a place is taken -/
  taken : s.ledger.busy = s.looks.toFinset
  room : s.looks.length ≤ max 1 maxConcurrent
  /-- of the looks that were begun each one has its place, or gave it back -/
  counted : (s.begun.map (·.2)).Perm (s.looks ++ s.freed)
  /-- as long as there is a free place, nothing was left when the loop handed out what was due -/
  ahead : s.waiting = true → s.looks.length < max 1 maxConcurrent → ∀ job ∉ s.looks, ∀ due,
    s.ledger.pending job = some due → s.handedOutAt < due

/-- A directive is followed in the second state; the loop heard it in the first one. -/
def Follows (s s' : Loop) (job : String) : Requeue → Prop
  | .done => s'.ledger.pending job = s.ledger.pending job
  | .now => s'.Wanted job s.clock
  | .after delay =>
    if s.clock.nanos + delay.nanos < Moment.reach then
      s'.Wanted job ⟨s.clock.nanos + delay.nanos⟩
    else s'.ledger.pending job = s.ledger.pending job

/-- The loop has heard that a look has ended. -/
structure Settles (s s' : Loop) (job : String) (directive : Requeue) : Prop where
  /-- one place is free again -/
  freed : s.looks.Perm (job :: s'.looks)
  idle : job ∉ s'.ledger.busy
  follows : s.Follows s' job directive
  /-- what was asked for meanwhile is asked for still -/
  wanted : ∀ due, s.Wanted job due → s'.Wanted job due
  others : ∀ name ≠ job, s'.ledger.pending name = s.ledger.pending name

variable {pacing : Pacing} {maxConcurrent : Nat} {clock : Moment} {s s' s'' : Loop} {e : Event}
  {event : Controller.Event} {job : String} {directive : Requeue}
  {outcome : Option (Except ReconcileError Requeue)}

/-! ## Hearing of the end of a look -/

theorem busy_receive (h : s.controller.queue.WellKept)
    (hnot : ∀ job directive, event ≠ .finished job directive) :
    (s.receive event).ledger.busy = s.ledger.busy := by
  rw [ledger_receive]
  refine WorkQueue.busy_performAll h fun call hcall => ?_
  rcases Controller.mem_calls hcall with hasks | ⟨job, directive, heq, -⟩
  · exact hasks
  · exact absurd heq (hnot job directive)

theorem asking_request (job : String) (now : Moment) (directive : Requeue) :
    WorkQueue.Asking (Controller.request job now directive) := by
  intro call hcall
  obtain ⟨due, rfl⟩ := Controller.mem_request hcall
  exact ⟨job, due, rfl⟩

/-- The job whose look has ended is done, and then the directive is followed. -/
theorem ledger_finished (s : Loop) (job : String) (directive : Requeue) :
    (s.receive (.finished job directive)).ledger = ((s.controller.queue.release job).performAll
      (Controller.request job s.clock directive)).ledger :=
  ledger_receive s _

theorem busy_finished (h : s.controller.queue.WellKept) (job : String) (directive : Requeue) :
    (s.receive (.finished job directive)).ledger.busy = s.ledger.busy.erase job := by
  rw [ledger_finished, WorkQueue.busy_performAll (h.release job) (asking_request job s.clock directive),
    WorkQueue.ledger_release h]
  rfl

theorem pending_finished (h : s.controller.queue.WellKept) {name : String} (hne : name ≠ job) :
    (s.receive (.finished job directive)).ledger.pending name = s.ledger.pending name := by
  have hother : ∀ due, .schedule name due ∉ Controller.request job s.clock directive := by
    intro due hcall
    obtain ⟨_, heq⟩ := Controller.mem_request hcall
    exact hne (WorkQueue.Call.schedule.inj heq).1
  rw [ledger_finished,
    WorkQueue.pending_performAll_of_not_mem (h.release job) (asking_request job s.clock directive) hother,
    WorkQueue.ledger_release h]
  rfl

/-- Whatever a look directs is done. -/
theorem follows_finished (h : s.controller.queue.WellKept) (job : String) (directive : Requeue) :
    s.Follows (s.receive (.finished job directive)) job directive := by
  have hdone : (s.controller.queue.release job).ledger.pending job = s.ledger.pending job := by
    rw [WorkQueue.ledger_release h]
    rfl
  have hasked : ∀ due, ((s.controller.queue.release job).schedule job due).ledger =
      (s.controller.queue.release job).ledger.schedule job due :=
    fun due => WorkQueue.ledger_schedule (h.release job) job due
  cases directive with
  | done => exact (congrArg (·.pending job) (ledger_finished s job .done)).trans hdone
  | now =>
    rw [Follows, Wanted, ledger_finished]
    simp only [Controller.request, WorkQueue.performAll, List.foldl_cons, List.foldl_nil,
      WorkQueue.perform, hasked]
    exact Ledger.pending_schedule _ job s.clock
  | after delay =>
    rw [Follows, Wanted, ledger_finished, Controller.request, Moment.after?]
    split
    · simp only [Option.map_some, Option.toList_some, WorkQueue.performAll, List.foldl_cons,
        List.foldl_nil, WorkQueue.perform, hasked]
      exact Ledger.pending_schedule _ job _
    · exact hdone

/-! ## Who holds a place -/

theorem looks_handOut (s : Loop) :
    s.handOut.looks.Perm ((s.controller.begin s.clock).1 ++ s.looks) := by
  simp only [looks, handOut]
  rw [← List.append_assoc]
  exact List.perm_append_comm.append_right _

theorem looks_endLook (hcan : s.Can (.endLook job outcome)) (pacing : Pacing) :
    (s.after pacing (.endLook job outcome)).looks.Perm s.looks := by
  have hback := (List.perm_cons_erase hcan).symm.append_right (s.ended.map (·.1))
  simp only [looks, after, List.map_append, List.map_cons, List.map_nil]
  rw [← List.append_assoc]
  exact List.perm_append_comm.trans hback

theorem looks_finish (hcan : s.Can (.finish job directive)) (pacing : Pacing) :
    s.looks.Perm (job :: (s.after pacing (.finish job directive)).looks) := by
  obtain ⟨ended, hended⟩ := List.head?_eq_some_iff.mp hcan.2
  simp only [looks, after, receive, hended, List.map_cons, List.tail_cons]
  exact List.perm_middle

namespace Sound

theorem start (maxConcurrent : Nat) (clock : Moment) :
    (start maxConcurrent clock).Sound maxConcurrent where
  kept := .empty
  limit := rfl
  nodup := List.nodup_nil
  taken := rfl
  room := Nat.zero_le _
  counted := List.Perm.refl _
  ahead := nofun

/-- The number of busy names is the number of looks. -/
theorem inFlight (h : s.Sound maxConcurrent) : s.controller.queue.inFlight = s.looks.length := by
  rw [WorkQueue.inFlight_eq, ← List.toFinset_card_of_nodup h.nodup, ← h.taken]
  rfl

theorem places (h : s.Sound maxConcurrent) : s.controller.places = max 1 maxConcurrent := by
  rw [Controller.places, h.limit]

theorem limit_receive (h : s.Sound maxConcurrent) (event : Controller.Event) :
    (s.receive event).controller.maxConcurrent = maxConcurrent := by
  rw [receive, Controller.receive_eq, h.limit]

theorem received (h : s.Sound maxConcurrent)
    (hnot : ∀ job directive, event ≠ .finished job directive) :
    (s.receive event).Sound maxConcurrent where
  kept := kept_receive h.kept event
  limit := h.limit_receive event
  nodup := h.nodup
  taken := (busy_receive h.kept hnot).trans h.taken
  room := h.room
  counted := h.counted
  ahead := nofun

/-- No more is handed out than there are free places. -/
theorem length_begin (h : s.Sound maxConcurrent) :
    (s.controller.begin s.clock).1.length ≤ max 1 maxConcurrent - s.looks.length := by
  rw [← h.places, ← h.inFlight]
  exact (WorkQueue.popDue_heads h.kept _ _).count.trans_le (min_le_left _ _)

/-- If a place stays free, whatever was due has been handed out. -/
theorem mem_begin (h : s.Sound maxConcurrent)
    (hroom : (s.controller.begin s.clock).1.length < max 1 maxConcurrent - s.looks.length)
    (hdue : s.ledger.Due s.clock job) : job ∈ (s.controller.begin s.clock).1 := by
  rw [← h.places, ← h.inFlight] at hroom
  exact WorkQueue.mem_popDue_of_room h.kept hroom hdue

theorem handedOut (h : s.Sound maxConcurrent) : s.handOut.Sound maxConcurrent := by
  have hheads := WorkQueue.popDue_heads h.kept s.clock
    (s.controller.places - s.controller.queue.inFlight)
  have hperm := s.looks_handOut
  have hledger := ledger_handOut h.kept
  -- whoever is handed out was not busy, so it held no place
  have hnodup : ((s.controller.begin s.clock).1 ++ s.looks).Nodup := by
    refine hheads.nodup.append h.nodup fun job hname hlook => ?_
    have hidle := (hheads.due job hname).1
    exact hidle (h.taken ▸ List.mem_toFinset.mpr hlook)
  have hlength := hperm.length_eq.trans List.length_append
  refine ⟨h.kept.popDue _ _, h.limit, hperm.nodup_iff.mpr hnodup, ?_, ?_, ?_, ?_⟩
  · rw [hledger, List.toFinset_eq_of_perm _ _ hperm, List.toFinset_append, ← h.taken]
    exact Finset.union_comm _ _
  · have hroom := h.room
    have hcount := h.length_begin
    omega
  · have hbegun : s.handOut.begun.map (·.2) =
        (s.controller.begin s.clock).1 ++ s.begun.map (·.2) := by
      simp only [handOut, List.map_append, List.map_map]
      exact congrArg (· ++ _) (List.map_id _)
    rw [hbegun]
    refine (h.counted.append_left _).trans ?_
    rw [← List.append_assoc]
    exact hperm.symm.append_right _
  · intro _ hfree job hjob due hpending
    have hname : job ∉ (s.controller.begin s.clock).1 := fun hmem =>
      hjob (hperm.mem_iff.mpr (List.mem_append_left _ hmem))
    have hidle : job ∉ s.ledger.busy := by
      rw [h.taken, List.mem_toFinset]
      exact fun hlook => hjob (hperm.mem_iff.mpr (List.mem_append_right _ hlook))
    rw [hledger] at hpending
    have hbefore : s.ledger.pending job = some due := (if_neg hname).symm.trans hpending
    by_contra hnot
    have hdue : due ≤ s.clock := Int.not_lt.mp hnot
    exact hname (h.mem_begin (by omega) ⟨hidle, due, hbefore, hdue⟩)

/-- The loop hears that a look has ended: the place is free again, and what is asked for stays. -/
theorem settles (h : s.Sound maxConcurrent) (hcan : s.Can (.finish job directive))
    (pacing : Pacing) : s.Settles (s.after pacing (.finish job directive)) job directive := by
  refine ⟨looks_finish hcan pacing, ?_, follows_finished h.kept job directive,
    fun due hwanted => wanted_receive h.kept _ hwanted, fun name hne => pending_finished h.kept hne⟩
  show job ∉ (s.receive (.finished job directive)).ledger.busy
  rw [busy_finished h.kept]
  exact Finset.notMem_erase _ _

/-- **Every event keeps what is always so.** -/
theorem after (h : s.Sound maxConcurrent) (hcan : s.Can e) (pacing : Pacing) :
    (s.after pacing e).Sound maxConcurrent := by
  cases e with
  | pass | send => exact ⟨h.kept, h.limit, h.nodup, h.taken, h.room, h.counted, h.ahead⟩
  | hangUp => exact ⟨h.kept, h.limit, h.nodup, h.taken, h.room, h.counted, nofun⟩
  | handOut => exact h.handedOut
  | resync | elapse => exact h.received nofun
  | trigger job =>
    have hreceived : (s.receive (.triggered job)).Sound maxConcurrent := h.received nofun
    exact ⟨hreceived.kept, hreceived.limit, h.nodup, hreceived.taken, h.room, h.counted, nofun⟩
  | endLook job outcome =>
    have hperm := looks_endLook hcan pacing
    refine ⟨h.kept, h.limit, hperm.nodup_iff.mpr h.nodup, ?_, ?_, ?_, ?_⟩
    · exact h.taken.trans (List.toFinset_eq_of_perm _ _ hperm).symm
    · exact hperm.length_eq.trans_le h.room
    · exact h.counted.trans (hperm.symm.append_right _)
    · intro hwaiting hfree job hjob
      rw [hperm.length_eq] at hfree
      exact h.ahead hwaiting hfree job (hperm.mem_iff.not.mp hjob)
  | finish job directive =>
    have hperm := looks_finish hcan pacing
    have hnodup := List.nodup_cons.mp (hperm.nodup_iff.mp h.nodup)
    have htaken := List.toFinset_eq_of_perm _ _ hperm
    refine ⟨kept_receive h.kept _, h.limit_receive _, hnodup.2, ?_, ?_, ?_, nofun⟩
    · refine (busy_finished h.kept _ _).trans ?_
      rw [h.taken, htaken, List.toFinset_cons]
      exact Finset.erase_insert (List.mem_toFinset.not.mpr hnodup.1)
    · have hroom := h.room
      rw [hperm.length_eq, List.length_cons] at hroom
      exact Nat.le_of_succ_le hroom
    · exact h.counted.trans ((hperm.append_right _).trans List.perm_middle.symm)

end Sound

theorem Runs.sound (h : Runs pacing s s') (hsound : s.Sound maxConcurrent) :
    s'.Sound maxConcurrent := by
  induction h with
  | refl => exact hsound
  | next _ can ih => exact ih.after can pacing

/-- The events can happen, one after another. -/
def Possible (pacing : Pacing) (s : Loop) : List Event → Prop
  | [] => True
  | e :: events => s.Can e ∧ Possible pacing (s.after pacing e) events

theorem Runs.play {events : List Event} (h : Runs pacing s s')
    (hpossible : Possible pacing s' events) : Runs pacing s (events.foldl (after pacing) s') := by
  induction events generalizing s' with
  | nil => exact h
  | cons e events ih => exact ih (h.next hpossible.1) hpossible.2

end Loop

end JobOperator
