import JobOperator.Controller.Queue
import JobOperator.Proofs.Text.ByteOrder
import Mathlib.Data.Set.Card

/-!
# A ledger of names

What a queue of names is to whoever uses it: for each name the earliest time for which it is asked
for, and the names that are busy. Nothing is said of how this is kept.

* `WorkQueue.Call`, `WorkQueue.View`: the calls to a queue, and what there is to see of it after
  each of them.
* `Ledger`: the requests and the busy names. `Ledger.Step` is what a call does to them, and
  `Ledger.Heads` tells which names are handed out: **the first ones by due time and bytes of the
  name**, as many as there may be.
* `Ledger.Shows`: what there is to see after each of some calls. A ledger leaves no choice
  (`Ledger.Shows.unique`).
* What a step keeps: a name stays busy until it is done (`Ledger.Step.mem_busy`), and a request stays
  until its name is handed out (`Ledger.Step.pending`).
-/

namespace JobOperator

namespace Moment

theorem earlier_le_left (a b : Moment) : a.earlier b ≤ a := by
  simp only [earlier, le_def]
  split <;> omega

theorem earlier_le_right (a b : Moment) : a.earlier b ≤ b := by
  simp only [earlier, le_def]
  split <;> omega

theorem le_refl (a : Moment) : a ≤ a := Int.le_refl a.nanos

theorem le_trans {a b c : Moment} (hab : a ≤ b) (hbc : b ≤ c) : a ≤ c := by
  rw [le_def] at *
  exact Int.le_trans hab hbc

theorem le_antisymm {a b : Moment} (hab : a ≤ b) (hba : b ≤ a) : a = b := by
  cases a
  cases b
  simp only [le_def] at hab hba
  rw [Int.le_antisymm hab hba]

/-- The earlier of two moments is one of them. -/
theorem earlier_cases (a b : Moment) : a.earlier b = a ∨ a.earlier b = b := by
  simp only [earlier]
  split
  · exact .inl rfl
  · exact .inr rfl

end Moment

/-! ## The ledger -/

/-- What is asked for, and what is being done. -/
@[ext]
structure Ledger where
  /-- the earliest time for which a name is asked for -/
  pending : String → Option Moment := fun _ => none
  busy : Finset String := ∅

namespace Ledger

/-- The name can be handed out. -/
def Due (l : Ledger) (now : Moment) (name : String) : Prop :=
  name ∉ l.busy ∧ ∃ due, l.pending name = some due ∧ due ≤ now

/-- Of two names that are asked for, the one comes first that is due earlier, and of names that are
due at the same time the one with the smaller bytes. -/
def Before (l : Ledger) (a b : String) : Prop :=
  ∃ s t, l.pending a = some s ∧ l.pending b = some t ∧
    (s < t ∨ s = t ∧ Utf8.encode a < Utf8.encode b)

/-- These are the first names that are due, in their order, as far as the limit allows. -/
structure Heads (l : Ledger) (now : Moment) (limit : Nat) (names : List String) : Prop where
  due : ∀ name ∈ names, l.Due now name
  ordered : names.Pairwise l.Before
  count : names.length = min limit {name | l.Due now name}.ncard
  /-- whoever is left has been overtaken only by names that come first -/
  first : ∀ name ∈ names, ∀ left, l.Due now left → left ∉ names → l.Before name left

/-- Asks for a name. -/
def schedule (l : Ledger) (name : String) (due : Moment) : Ledger :=
  { l with pending := fun n =>
      if name = n then some (((l.pending name).map (·.earlier due)).getD due) else l.pending n }

/-- Hands out names. All others stay as they are. -/
def handOut (l : Ledger) (names : List String) : Ledger where
  pending := fun name => if name ∈ names then none else l.pending name
  busy := l.busy ∪ names.toFinset

/-- Is done with a name. -/
def done (l : Ledger) (name : String) : Ledger := { l with busy := l.busy.erase name }

/-- When a name that is not busy is due next. -/
def Next (l : Ledger) : Option Moment → Prop
  | none => ∀ name ∉ l.busy, l.pending name = none
  | some t => (∃ name ∉ l.busy, l.pending name = some t) ∧
      ∀ name ∉ l.busy, ∀ due, l.pending name = some due → t ≤ due

end Ledger

namespace WorkQueue

/-- A call to the queue. -/
inductive Call where
  | schedule (name : String) (due : Moment)
  | popDue (now : Moment) (limit : Nat)
  | done (name : String)
  deriving DecidableEq, Repr

/-- What there is to see of a queue once it has been called. -/
structure View where
  /-- the names that were handed out -/
  names : List String
  nextDue : Option Moment
  inFlight : Nat
  deriving DecidableEq, Repr

/-- The names that a call hands out, and the queue after it. -/
def perform (q : WorkQueue) : Call → List String × WorkQueue
  | .schedule name due => ([], q.schedule name due)
  | .popDue now limit => q.popDue now limit
  | .done name => ([], q.release name)

/-- The queue after calls, one after another. -/
def performAll (q : WorkQueue) (calls : List Call) : WorkQueue :=
  calls.foldl (fun q call => (q.perform call).2) q

/-- What there is to see after each of some calls. -/
def trace (q : WorkQueue) : List Call → List (Call × View)
  | [] => []
  | call :: calls =>
    let (names, next) := q.perform call
    (call, ⟨names, next.nextDue, next.inFlight⟩) :: next.trace calls

end WorkQueue

namespace Ledger

/-- What a call does to a ledger, and the names that it hands out. -/
inductive Step (l : Ledger) : WorkQueue.Call → List String → Ledger → Prop where
  | schedule (name : String) (due : Moment) : Step l (.schedule name due) [] (l.schedule name due)
  | popDue {now : Moment} {limit : Nat} {names : List String} (heads : l.Heads now limit names) :
      Step l (.popDue now limit) names (l.handOut names)
  | done (name : String) : Step l (.done name) [] (l.done name)

/-- What there is to see of a ledger after each of some calls. -/
inductive Shows : Ledger → List (WorkQueue.Call × WorkQueue.View) → Ledger → Prop where
  | nothing (l : Ledger) : Shows l [] l
  | call {l next last : Ledger} {call : WorkQueue.Call} {view : WorkQueue.View}
      {views : List (WorkQueue.Call × WorkQueue.View)} (step : l.Step call view.names next)
      (nextDue : next.Next view.nextDue) (inFlight : view.inFlight = next.busy.card)
      (rest : Shows next views last) : Shows l ((call, view) :: views) last

variable {l next next' : Ledger} {now : Moment} {limit : Nat} {names names' : List String}

/-! ## A ledger leaves no choice -/

theorem Before.irrefl (name : String) : ¬ l.Before name name := by
  rintro ⟨s, t, hs, ht, h⟩
  obtain rfl := Option.some.inj (hs.symm.trans ht)
  rcases h with h | ⟨-, h⟩
  · exact Int.lt_irrefl _ h
  · exact List.lt_irrefl _ h

theorem Before.asymm {a b : String} (h : l.Before a b) : ¬ l.Before b a := by
  obtain ⟨s, t, hs, ht, hab⟩ := h
  rintro ⟨t', s', ht', hs', hba⟩
  obtain rfl := Option.some.inj (hs.symm.trans hs')
  obtain rfl := Option.some.inj (ht.symm.trans ht')
  simp only [Moment.lt_def] at hab hba
  rcases hab with hab | ⟨rfl, hab⟩
  · rcases hba with hba | ⟨rfl, -⟩ <;> omega
  · rcases hba with hba | ⟨-, hba⟩
    · omega
    · exact List.lt_asymm hab hba

theorem Heads.nodup (h : l.Heads now limit names) : names.Nodup := by
  refine List.nodup_iff_pairwise_ne.mpr (h.ordered.imp fun {a b} hbefore heq => ?_)
  rw [heq] at hbefore
  exact hbefore.irrefl

/-- A list that is handed out holds whatever another one holds that is as long. -/
theorem Heads.subset (h : l.Heads now limit names) (h' : l.Heads now limit names') :
    names ⊆ names' := by
  intro a ha
  by_contra hnot
  -- the other list has room for a name that comes later
  have hlength : names.length = names'.length := h.count.trans h'.count.symm
  obtain ⟨b, hb, hbnot⟩ : ∃ b ∈ names', b ∉ names := by
    by_contra hall
    push Not at hall
    have hperm := (h'.nodup.subperm hall).perm_of_length_le hlength.le
    exact hnot (hperm.mem_iff.mpr ha)
  exact (h.first a ha b (h'.due b hb) hbnot).asymm (h'.first b hb a (h.due a ha) hnot)

/-- Which names are handed out is determined. -/
theorem Heads.unique (h : l.Heads now limit names) (h' : l.Heads now limit names') :
    names = names' := by
  have hperm : names.Perm names' :=
    (List.perm_ext_iff_of_nodup h.nodup h'.nodup).mpr fun a =>
      ⟨fun ha => h.subset h' ha, fun ha => h'.subset h ha⟩
  exact hperm.eq_of_pairwise (fun a b _ _ hab hba => absurd hba hab.asymm) h.ordered h'.ordered

theorem Step.unique {call : WorkQueue.Call} (h : l.Step call names next)
    (h' : l.Step call names' next') : names = names' ∧ next = next' := by
  cases h with
  | schedule | done =>
    cases h'
    exact ⟨rfl, rfl⟩
  | popDue heads =>
    cases h' with
    | popDue heads' =>
      obtain rfl := heads.unique heads'
      exact ⟨rfl, rfl⟩

theorem Next.unique {t t' : Option Moment} (h : l.Next t) (h' : l.Next t') : t = t' := by
  cases t with
  | none =>
    cases t' with
    | none => rfl
    | some t' =>
      obtain ⟨⟨name, hidle, hdue⟩, -⟩ := h'
      exact absurd ((h name hidle).symm.trans hdue) nofun
  | some t =>
    obtain ⟨⟨name, hidle, hdue⟩, hleast⟩ := h
    cases t' with
    | none => exact absurd ((h' name hidle).symm.trans hdue) nofun
    | some t' =>
      obtain ⟨⟨name', hidle', hdue'⟩, hleast'⟩ := h'
      rw [Moment.le_antisymm (hleast name' hidle' t' hdue') (hleast' name hidle t hdue)]

theorem Shows.unique {last last' : Ledger} {views views' : List (WorkQueue.Call × WorkQueue.View)}
    (h : l.Shows views last) (h' : l.Shows views' last')
    (calls : views.map (·.1) = views'.map (·.1)) : views = views' ∧ last = last' := by
  induction h generalizing views' with
  | nothing =>
    obtain rfl := List.map_eq_nil_iff.mp calls.symm
    cases h'
    exact ⟨rfl, rfl⟩
  | @call l next last call view views step nextDue inFlight _ ih =>
    cases h' with
    | nothing => cases calls
    | @call _ next' _ call' view' views' step' nextDue' inFlight' rest' =>
      obtain ⟨rfl, hcalls⟩ := List.cons.inj calls
      obtain ⟨hnames, rfl⟩ := step.unique step'
      obtain ⟨rfl, rfl⟩ := ih rest' hcalls
      have hview : view = view' := by
        cases view
        cases view'
        simp only [WorkQueue.View.mk.injEq]
        exact ⟨hnames, nextDue.unique nextDue', inFlight.trans inFlight'.symm⟩
      exact ⟨by rw [hview], rfl⟩

/-! ## What a step keeps -/

variable {call : WorkQueue.Call} {name : String} {due : Moment}

/-- A name that is handed out was not busy, and now is. -/
theorem Step.of_mem (h : l.Step call names next) (hname : name ∈ names) :
    name ∉ l.busy ∧ name ∈ next.busy := by
  cases h with
  | schedule | done => cases hname
  | popDue heads =>
    exact ⟨(heads.due name hname).1, Finset.mem_union_right _ (List.mem_toFinset.mpr hname)⟩

/-- A name is busy until it is done. -/
theorem Step.mem_busy (h : l.Step call names next) (hbusy : name ∈ l.busy)
    (hdone : call ≠ .done name) : name ∈ next.busy := by
  cases h with
  | schedule => exact hbusy
  | popDue => exact Finset.mem_union_left _ hbusy
  | done n =>
    refine Finset.mem_erase.mpr ⟨?_, hbusy⟩
    rintro rfl
    exact hdone rfl

/-- A request is kept until its name is handed out. An earlier one may take its place. -/
theorem Step.pending (h : l.Step call names next) (hdue : l.pending name = some due)
    (hname : name ∉ names) : ∃ asked, next.pending name = some asked ∧ asked ≤ due := by
  cases h with
  | schedule n t =>
    simp only [Ledger.schedule]
    split
    · next hn =>
      rw [hn, hdue]
      exact ⟨_, rfl, due.earlier_le_left t⟩
    · exact ⟨due, hdue, due.le_refl⟩
  | popDue =>
    refine ⟨due, ?_, due.le_refl⟩
    simp only [handOut, if_neg hname, hdue]
  | done => exact ⟨due, hdue, due.le_refl⟩

/-- Whoever asks for a name finds it asked for. -/
theorem pending_schedule (l : Ledger) (name : String) (due : Moment) :
    ∃ asked, (l.schedule name due).pending name = some asked ∧ asked ≤ due := by
  simp only [schedule, if_true]
  cases l.pending name with
  | none => exact ⟨due, rfl, due.le_refl⟩
  | some t => exact ⟨_, rfl, t.earlier_le_right due⟩

end Ledger

end JobOperator
