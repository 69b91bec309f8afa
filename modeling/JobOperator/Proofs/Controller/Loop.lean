import JobOperator.Controller.Loop
import JobOperator.Proofs.Controller.Queue

/-!
# The controller and the looks that it has begun

The loop waits, takes in one thing that has happened, and hands out what is due before it waits
again. Meanwhile the looks that it has begun go on, end in any order and in any way, and leave word
for the loop; triggers come in; and the clock goes on.

* `Loop`: the controller, the clock, the triggers on their way, and the looks.
* `Loop.Can`, `Loop.after`: when something can happen, and what comes of it; `Loop.Runs` is what
  comes of many things, one after another.
* `Loop.Wanted`: a job is asked for. A request **stays until a look at the job begins**
  (`Loop.Runs.wanted`).
-/

namespace JobOperator

namespace Controller

variable {c : Controller} {event : Event} {now due : Moment} {job name : String}

/-- The request by which a directive is followed. -/
def request (job : String) (now : Moment) : Requeue → List WorkQueue.Call
  | .done => []
  | .now => [.schedule job now]
  | .after delay => ((now.after? delay).map (.schedule job ·)).toList

/-- The calls by which the queue takes in what happened. -/
def calls (now : Moment) : Event → List WorkQueue.Call
  | .resynced jobs => (jobs.getD []).map (.schedule · now)
  | .triggered job => [.schedule job now]
  | .finished job directive => .done job :: request job now directive
  | .elapsed => []

theorem comeBack_eq (queue : WorkQueue) (job : String) (directive : Requeue) (now : Moment) :
    comeBack queue job directive now = queue.performAll (request job now directive) := by
  cases directive with
  | done | now => rfl
  | after delay =>
    simp only [comeBack, request]
    cases now.after? delay <;> rfl

/-- What happened is taken in by calls to the queue. -/
theorem receive_eq (c : Controller) (event : Event) (now : Moment) :
    c.receive event now = { c with queue := c.queue.performAll (calls now event) } := by
  cases event with
  | resynced jobs =>
    cases jobs with
    | none => rfl
    | some jobs =>
      simp only [receive, calls, WorkQueue.performAll, Option.getD_some, List.foldl_map]
      rfl
  | triggered => rfl
  | finished job directive =>
    simp only [receive, comeBack_eq, calls]
    rfl
  | elapsed => rfl

theorem mem_request {call : WorkQueue.Call} {directive : Requeue}
    (h : call ∈ request job now directive) : ∃ due, call = .schedule job due := by
  cases directive with
  | done => cases h
  | now => exact ⟨now, List.mem_singleton.mp h⟩
  | after delay =>
    obtain ⟨due, -, rfl⟩ := Option.map_eq_some_iff.mp (Option.mem_toList.mp h)
    exact ⟨due, rfl⟩

/-- The queue is asked for names, and it is done only with the one whose look has ended. -/
theorem mem_calls {call : WorkQueue.Call} (h : call ∈ calls now event) :
    (∃ job due, call = .schedule job due) ∨
      ∃ job directive, event = .finished job directive ∧ call = .done job := by
  cases event with
  | resynced jobs =>
    obtain ⟨job, -, rfl⟩ := List.mem_map.mp h
    exact .inl ⟨job, now, rfl⟩
  | triggered job => exact .inl ⟨job, now, List.mem_singleton.mp h⟩
  | finished job directive =>
    rcases List.mem_cons.mp h with rfl | h
    · exact .inr ⟨job, directive, rfl, rfl⟩
    · obtain ⟨due, rfl⟩ := mem_request h
      exact .inl ⟨job, due, rfl⟩
  | elapsed => cases h

end Controller

/-! ## The loop and its surroundings -/

/-- The controller's loop, with what goes on around it. -/
structure Loop where
  controller : Controller
  clock : Moment
  /-- the loop has handed out what is due, and waits -/
  waiting : Bool := false
  /-- when it last handed out what is due -/
  handedOutAt : Moment := clock
  /-- the triggers on their way to the loop, the oldest first -/
  triggers : List String := []
  /-- there may be more triggers -/
  listening : Bool := true
  /-- the jobs that are looked at -/
  running : List String := []
  /-- the looks that have ended and what they direct, until the loop hears of it; the oldest first -/
  ended : List (String × Requeue) := []
  /-- all looks that were begun, and when; the last one first -/
  begun : List (Moment × String) := []
  /-- the jobs whose place was taken back after a look; the last one first -/
  freed : List String := []

namespace Loop

/-- The controller is set up; there are no jobs yet. -/
def start (maxConcurrent : Nat) (clock : Moment) : Loop where
  controller := { maxConcurrent }
  clock := clock

/-- What the queue knows. -/
def ledger (s : Loop) : Ledger := s.controller.queue.ledger

/-- The jobs for which a place is taken: they are looked at, or the loop has not heard of the end. -/
def looks (s : Loop) : List String := s.running ++ s.ended.map (·.1)

/-- The loop hands out what is due, and begins to look at it. -/
def handOut (s : Loop) : Loop :=
  let (names, controller) := s.controller.begin s.clock
  { s with
    controller
    waiting := true
    handedOutAt := s.clock
    running := s.running ++ names
    begun := names.map (s.clock, ·) ++ s.begun }

/-- The loop takes in what happened, and goes on. -/
def receive (s : Loop) (event : Controller.Event) : Loop :=
  { s with controller := s.controller.receive event s.clock, waiting := false }

/-- What can happen. -/
inductive Event where
  | pass (clock : Moment)
  /-- somebody triggers a job -/
  | send (job : String)
  /-- the loop hands out what is due -/
  | handOut
  /-- a look ends; without an outcome if it was cut off -/
  | endLook (job : String) (outcome : Option (Except ReconcileError Requeue))
  /-- the loop looks for all jobs; without an answer if that failed -/
  | resync (jobs : Option (List String))
  /-- the loop hears of a trigger -/
  | trigger (job : String)
  /-- the loop hears that there will be no more triggers -/
  | hangUp
  /-- the loop hears that a look has ended -/
  | finish (job : String) (directive : Requeue)
  /-- the loop has waited until a name is due -/
  | elapse

/-- Whether an event can happen. -/
def Can (s : Loop) : Event → Prop
  | .pass clock => s.clock ≤ clock
  | .send _ => s.listening = true
  | .handOut => s.waiting = false
  | .endLook job _ => job ∈ s.running
  | .resync _ => s.waiting = true
  | .trigger job => s.waiting = true ∧ s.triggers.head? = some job
  | .hangUp => s.waiting = true ∧ s.listening = true ∧ s.triggers = []
  | .finish job directive => s.waiting = true ∧ s.ended.head? = some (job, directive)
  | .elapse => s.waiting = true ∧ ∃ due, s.controller.deadline = some due ∧ due ≤ s.clock

/-- What comes of an event. -/
def after (pacing : Pacing) (s : Loop) : Event → Loop
  | .pass clock => { s with clock }
  | .send job => { s with triggers := s.triggers ++ [job] }
  | .handOut => s.handOut
  | .endLook job outcome => { s with
    running := s.running.erase job
    ended := s.ended ++ [(job, Controller.directive pacing outcome)] }
  | .resync jobs => s.receive (.resynced jobs)
  | .trigger job => { s.receive (.triggered job) with triggers := s.triggers.tail }
  | .hangUp => { s with listening := false, waiting := false }
  | .finish job directive => { s.receive (.finished job directive) with
    ended := s.ended.tail
    freed := job :: s.freed }
  | .elapse => s.receive .elapsed

/-- The second state comes of the first one, by whatever can happen. -/
inductive Runs (pacing : Pacing) (s : Loop) : Loop → Prop where
  | refl : Runs pacing s s
  | next {s' : Loop} {e : Event} (before : Runs pacing s s') (can : s'.Can e) :
      Runs pacing s (s'.after pacing e)

/-- The job is asked for, for no later than `due`. -/
def Wanted (s : Loop) (job : String) (due : Moment) : Prop :=
  ∃ asked, s.ledger.pending job = some asked ∧ asked ≤ due

/-- After the first state, up to the second one, a look at the job has begun. -/
def Begins (s s' : Loop) (job : String) : Prop :=
  ∃ recent now, s'.begun = recent ++ s.begun ∧ (now, job) ∈ recent ∧ s.clock ≤ now

/-- The second state comes later. -/
structure Later (s s' : Loop) : Prop where
  clock : s.clock ≤ s'.clock
  begun : s.begun <:+ s'.begun

variable {pacing : Pacing} {s s' s'' : Loop} {e : Event} {event : Controller.Event} {job : String}
  {due : Moment}

namespace Later

theorem refl (s : Loop) : s.Later s := ⟨s.clock.le_refl, List.suffix_refl _⟩

theorem trans (h : s.Later s') (h' : s'.Later s'') : s.Later s'' :=
  ⟨Moment.le_trans h.clock h'.clock, h.begun.trans h'.begun⟩

/-- What begins after a later state begins after an earlier one. -/
theorem begins (h : s.Later s') (hbegins : s'.Begins s'' job) : s.Begins s'' job := by
  obtain ⟨more, hmore⟩ := h.begun
  obtain ⟨recent, now, hrecent, hmem, hle⟩ := hbegins
  refine ⟨recent ++ more, now, ?_, List.mem_append_left _ hmem, Moment.le_trans h.clock hle⟩
  rw [hrecent, ← hmore, List.append_assoc]

end Later

/-- What has begun up to a state has begun up to a later one. -/
theorem Begins.later (h : s.Begins s' job) (hlater : s'.Later s'') : s.Begins s'' job := by
  obtain ⟨more, hmore⟩ := hlater.begun
  obtain ⟨recent, now, hrecent, hmem, hle⟩ := h
  refine ⟨more ++ recent, now, ?_, List.mem_append_right _ hmem, hle⟩
  rw [← hmore, hrecent, List.append_assoc]

/-! ## What a step does to the queue -/

theorem ledger_handOut (h : s.controller.queue.WellKept) :
    s.handOut.ledger = s.ledger.handOut (s.controller.begin s.clock).1 :=
  WorkQueue.ledger_popDue h _ _

theorem ledger_receive (s : Loop) (event : Controller.Event) : (s.receive event).ledger =
    (s.controller.queue.performAll (Controller.calls s.clock event)).ledger := by
  simp only [ledger, receive, Controller.receive_eq]

/-- Taking in what happened hands out nothing. -/
theorem wanted_receive (h : s.controller.queue.WellKept) (event : Controller.Event)
    (hwanted : s.Wanted job due) : (s.receive event).Wanted job due := by
  obtain ⟨asked, hasked, hle⟩ := hwanted
  have hnothing : ∀ early call late, Controller.calls s.clock event = early ++ call :: late →
      job ∉ ((s.controller.queue.performAll early).perform call).1 := by
    intro early call late heq
    have hmem : call ∈ Controller.calls s.clock event := by
      rw [heq]
      exact List.mem_append_right _ (List.mem_cons_self ..)
    rcases Controller.mem_calls hmem with ⟨_, _, rfl⟩ | ⟨_, _, -, rfl⟩ <;> exact List.not_mem_nil
  obtain ⟨asked', hasked', hle'⟩ := WorkQueue.pending_performAll h hasked hnothing
  rw [← ledger_receive] at hasked'
  exact ⟨asked', hasked', Moment.le_trans hle' hle⟩

theorem kept_receive (h : s.controller.queue.WellKept) (event : Controller.Event) :
    (s.receive event).controller.queue.WellKept := by
  simp only [receive, Controller.receive_eq]
  exact h.performAll _

theorem kept_after (h : s.controller.queue.WellKept) (pacing : Pacing) (e : Event) :
    (s.after pacing e).controller.queue.WellKept := by
  cases e with
  | pass | send | endLook | hangUp => exact h
  | handOut => exact h.popDue _ _
  | resync | trigger | finish | elapse => exact kept_receive h _

theorem later_after (hcan : s.Can e) (pacing : Pacing) : s.Later (s.after pacing e) := by
  cases e with
  | pass => exact ⟨hcan, List.suffix_refl _⟩
  | handOut => exact ⟨s.clock.le_refl, List.suffix_append _ _⟩
  | send | endLook | hangUp | resync | trigger | finish | elapse =>
    exact ⟨s.clock.le_refl, List.suffix_refl _⟩

/-- A request stays unless a look at the job begins. -/
theorem wanted_after (h : s.controller.queue.WellKept) (hwanted : s.Wanted job due)
    (pacing : Pacing) (e : Event) :
    (s.after pacing e).Wanted job due ∨ s.Begins (s.after pacing e) job := by
  cases e with
  | pass | send | endLook | hangUp => exact .inl hwanted
  | resync | trigger | finish | elapse => exact .inl (wanted_receive h _ hwanted)
  | handOut =>
    obtain ⟨asked, hasked, hle⟩ := hwanted
    by_cases hmem : job ∈ (s.controller.begin s.clock).1
    · refine .inr ⟨_, s.clock, rfl, ?_, s.clock.le_refl⟩
      exact List.mem_map.mpr ⟨job, hmem, rfl⟩
    · refine .inl ⟨asked, ?_, hle⟩
      rw [after, ledger_handOut h]
      simp only [Ledger.handOut, if_neg hmem, hasked]

namespace Runs

theorem kept (h : Runs pacing s s') (hkept : s.controller.queue.WellKept) :
    s'.controller.queue.WellKept := by
  induction h with
  | refl => exact hkept
  | next _ _ ih => exact kept_after ih pacing _

theorem later (h : Runs pacing s s') : s.Later s' := by
  induction h with
  | refl => exact .refl s
  | next _ can ih => exact ih.trans (later_after can pacing)

/-- **A request stays until a look at the job begins**, whatever happens meanwhile. -/
theorem wanted (h : Runs pacing s s') (hkept : s.controller.queue.WellKept)
    (hwanted : s.Wanted job due) : s'.Wanted job due ∨ s.Begins s' job := by
  induction h with
  | refl => exact .inl hwanted
  | next before can ih =>
    rcases ih with hwanted | hbegins
    · exact (wanted_after (before.kept hkept) hwanted pacing _).imp_right before.later.begins
    · exact .inr (hbegins.later (later_after can pacing))

end Runs

end Loop

end JobOperator
