import JobOperator.Proofs.Controller.Ledger

/-!
# The queue is a ledger

Three tables make up the queue: what waits, what is busy, and what is parked behind a busy name.

* `WorkQueue.WellKept`: how the three fit together. Every call keeps this
  (`WorkQueue.WellKept.perform`).
* `WorkQueue.ledger`: the ledger that a queue keeps. A call to the queue is **a step of the ledger**
  (`WorkQueue.ledger_step`).
* `WorkQueue.trace_exact`: what there is to see of a queue is what a ledger shows, and nothing else.
-/

namespace JobOperator

/-! ## How the tables of a queue fit together -/

namespace Table

variable {α : Type} {t : Table α} {key : String}

theorem contains_iff : t.contains key ↔ ∃ value, t.get? key = some value :=
  Option.isSome_iff_exists

theorem mem_keys_iff : key ∈ t.keys ↔ t.contains key := by
  rw [contains_iff, keys, List.mem_map]
  constructor
  · rintro ⟨⟨k, value⟩, hmem, rfl⟩
    exact ⟨value, mem_toList_iff.mp hmem⟩
  · rintro ⟨value, hvalue⟩
    exact ⟨(key, value), mem_toList_iff.mpr hvalue, rfl⟩

theorem nodup_keys (t : Table α) : t.keys.Nodup := by
  refine List.nodup_iff_pairwise_ne.mpr (List.pairwise_map.mpr (t.ascending.imp ?_))
  intro a b hlt heq
  rw [heq] at hlt
  exact String.lt_irrefl _ hlt

end Table

namespace WorkQueue

variable {q : WorkQueue} {name : String} {due now : Moment} {limit : Nat}

/-- No name waits that is busy, and no request is parked behind a name that is not. -/
structure WellKept (q : WorkQueue) : Prop where
  apart : ∀ name, q.busy.contains name → q.scheduled.contains name = false
  parked : ∀ name, q.deferred.contains name → q.busy.contains name

/-- The ledger that a queue keeps. -/
def ledger (q : WorkQueue) : Ledger where
  pending := fun name => (q.scheduled.get? name).or (q.deferred.get? name)
  busy := q.busy.keys.toFinset

theorem pending_eq (q : WorkQueue) (name : String) :
    q.ledger.pending name = (q.scheduled.get? name).or (q.deferred.get? name) := rfl

theorem mem_busy : name ∈ q.ledger.busy ↔ q.busy.contains name := by
  rw [ledger, List.mem_toFinset, Table.mem_keys_iff]

theorem inFlight_eq (q : WorkQueue) : q.inFlight = q.ledger.busy.card := by
  rw [ledger, List.toFinset_card_of_nodup q.busy.nodup_keys, Table.keys, List.length_map]
  rfl

theorem get?_request (waiting : Table Moment) (name : String) (due : Moment) (n : String) :
    (request waiting name due).get? n = if name = n then
      some (((waiting.get? name).map (·.earlier due)).getD due) else waiting.get? n := by
  rw [request, Table.get?_insert]
  cases waiting.get? name <;> rfl

namespace WellKept

theorem get?_scheduled (h : q.WellKept) (hbusy : q.busy.contains name) :
    q.scheduled.get? name = none := by
  simpa [Table.contains] using h.apart name hbusy

theorem busy_of_parked (h : q.WellKept) (hparked : q.deferred.get? name = some due) :
    q.busy.contains name :=
  h.parked name (Table.contains_iff.mpr ⟨due, hparked⟩)

theorem get?_deferred (h : q.WellKept) (hidle : ¬ q.busy.contains name) :
    q.deferred.get? name = none :=
  Option.eq_none_iff_forall_ne_some.mpr fun _ hparked => hidle (h.busy_of_parked hparked)

theorem pending_of_busy (h : q.WellKept) (hbusy : q.busy.contains name) :
    q.ledger.pending name = q.deferred.get? name := by
  rw [pending_eq, h.get?_scheduled hbusy, Option.none_or]

theorem pending_of_idle (h : q.WellKept) (hidle : ¬ q.busy.contains name) :
    q.ledger.pending name = q.scheduled.get? name := by
  rw [pending_eq, h.get?_deferred hidle, Option.or_none]

theorem empty : WellKept {} where
  apart := fun _ h => nomatch h
  parked := fun _ h => nomatch h

end WellKept

/-! ## What the calls do -/

theorem schedule_of_busy (hbusy : q.busy.contains name) :
    q.schedule name due = { q with deferred := request q.deferred name due } := if_pos hbusy

theorem schedule_of_idle (hidle : ¬ q.busy.contains name) :
    q.schedule name due = { q with scheduled := request q.scheduled name due } := if_neg hidle

/-- A table has a name that is asked for, and those that it has had. -/
theorem contains_request (waiting : Table Moment) (name : String) (due : Moment) (n : String) :
    (request waiting name due).contains n = (decide (name = n) || waiting.contains n) := by
  simp only [Table.contains, get?_request]
  by_cases hn : name = n <;> simp [hn]

theorem WellKept.schedule (h : q.WellKept) (name : String) (due : Moment) :
    (q.schedule name due).WellKept := by
  by_cases hbusy : q.busy.contains name
  · rw [schedule_of_busy hbusy]
    refine ⟨h.apart, fun n hn => ?_⟩
    simp only [contains_request, Bool.or_eq_true, decide_eq_true_eq] at hn
    rcases hn with rfl | hn
    · exact hbusy
    · exact h.parked n hn
  · rw [schedule_of_idle hbusy]
    refine ⟨fun n hn => ?_, h.parked⟩
    have hne : name ≠ n := fun heq => hbusy (heq ▸ hn)
    simp only [contains_request, hne, decide_false, Bool.false_or]
    exact h.apart n hn

theorem ledger_schedule (h : q.WellKept) (name : String) (due : Moment) :
    (q.schedule name due).ledger = q.ledger.schedule name due := by
  by_cases hbusy : q.busy.contains name
  · rw [schedule_of_busy hbusy]
    refine Ledger.ext (funext fun n => ?_) rfl
    simp only [Ledger.schedule, h.pending_of_busy hbusy, pending_eq, get?_request]
    split
    · next hn => rw [← hn, h.get?_scheduled hbusy, Option.none_or]
    · rfl
  · rw [schedule_of_idle hbusy]
    refine Ledger.ext (funext fun n => ?_) rfl
    simp only [Ledger.schedule, h.pending_of_idle hbusy, pending_eq, get?_request]
    split
    · rw [Option.some_or]
    · rfl

/-- A name that is released is not busy, and a request that was parked behind it waits now. -/
theorem release_eq (h : q.WellKept) (name : String) : q.release name = {
    scheduled := match q.deferred.get? name with
      | some due => q.scheduled.insert name due
      | none => q.scheduled
    busy := q.busy.erase name
    deferred := q.deferred.erase name } := by
  have hidle : ¬ (q.busy.erase name).contains name := by
    simp [Table.contains, Table.get?_erase]
  cases hparked : q.deferred.get? name with
  | none => simp only [release, hparked]
  | some due =>
    simp only [release, hparked]
    rw [schedule_of_idle hidle]
    simp only [request, h.get?_scheduled (h.busy_of_parked hparked)]

theorem WellKept.release (h : q.WellKept) (name : String) : (q.release name).WellKept := by
  rw [release_eq h]
  refine ⟨fun n hn => ?_, fun n hn => ?_⟩
  · obtain ⟨_, hbusy⟩ := Table.contains_iff.mp hn
    rw [Table.get?_erase] at hbusy
    split at hbusy
    · cases hbusy
    · next hne =>
      have hwaits := h.apart n (Table.contains_iff.mpr ⟨_, hbusy⟩)
      simp only [Table.contains] at hwaits ⊢
      split
      · rw [Table.get?_insert, if_neg hne, hwaits]
      · exact hwaits
  · obtain ⟨due, hparked⟩ := Table.contains_iff.mp hn
    rw [Table.get?_erase] at hparked
    split at hparked
    · cases hparked
    · next hne =>
      obtain ⟨_, hbusy⟩ := Table.contains_iff.mp (h.busy_of_parked hparked)
      refine Table.contains_iff.mpr ⟨(), ?_⟩
      rw [Table.get?_erase, if_neg hne, hbusy]

theorem ledger_release (h : q.WellKept) (name : String) :
    (q.release name).ledger = q.ledger.done name := by
  rw [release_eq h]
  refine Ledger.ext (funext fun n => ?_) (Finset.ext fun n => ?_)
  · simp only [Ledger.done, pending_eq, Table.get?_erase]
    cases hparked : q.deferred.get? name with
    | none =>
      by_cases hn : name = n
      · rw [if_pos hn, ← hn, hparked]
      · rw [if_neg hn]
    | some due =>
      simp only [Table.get?_insert]
      by_cases hn : name = n
      · rw [if_pos hn, ← hn, h.get?_scheduled (h.busy_of_parked hparked), hparked, Option.some_or,
          Option.none_or]
      · rw [if_neg hn, if_neg hn]
  · simp only [Ledger.done, Finset.mem_erase, mem_busy, Table.contains, Table.get?_erase]
    by_cases hn : name = n
    · simp [hn]
    · simp [hn, Ne.symm hn]

/-! ## Handing out -/

/-- Names that are handed out do not wait any more, and are busy; nothing else changes. -/
theorem get?_handOut (names : List String) (q : WorkQueue) (n : String) :
    (names.foldl handOut q).scheduled.get? n =
        (if n ∈ names then none else q.scheduled.get? n) ∧
      (names.foldl handOut q).busy.contains n = (decide (n ∈ names) || q.busy.contains n) ∧
      (names.foldl handOut q).deferred = q.deferred := by
  induction names generalizing q with
  | nil => simp
  | cons name names ih =>
    obtain ⟨hscheduled, hbusy, hdeferred⟩ := ih (q.handOut name)
    rw [List.foldl_cons, hscheduled, hbusy, hdeferred]
    simp only [handOut, Table.get?_erase, Table.contains, Table.get?_insert, List.mem_cons]
    by_cases hn : name = n
    · simp [hn]
    · simp [hn, Ne.symm hn]

theorem precedes_iff {a b : String × Moment} :
    precedes a b ↔ a.2 < b.2 ∨ a.2 = b.2 ∧ a.1 ≤ b.1 := by
  simp only [precedes, Bool.or_eq_true, Bool.and_eq_true, decide_eq_true_eq]

theorem precedes_trans (a b c : String × Moment) (hab : precedes a b) (hbc : precedes b c) :
    precedes a c := by
  rw [precedes_iff] at *
  rcases hab with hab | ⟨hab, hle⟩
  · rcases hbc with hbc | ⟨hbc, -⟩
    · exact .inl (Int.lt_trans hab hbc)
    · exact .inl (hbc ▸ hab)
  · rcases hbc with hbc | ⟨hbc, hle'⟩
    · exact .inl (hab ▸ hbc)
    · exact .inr ⟨hab.trans hbc, String.le_trans hle hle'⟩

theorem precedes_total (a b : String × Moment) : precedes a b || precedes b a := by
  rw [Bool.or_eq_true, precedes_iff, precedes_iff]
  rcases Int.lt_trichotomy a.2.nanos b.2.nanos with hlt | heq | hgt
  · exact .inl (.inl hlt)
  · have hdue : a.2 = b.2 := Moment.le_antisymm (Int.le_of_eq heq) (Int.le_of_eq heq.symm)
    rcases String.le_total a.1 b.1 with hle | hle
    · exact .inl (.inr ⟨hdue, hle⟩)
    · exact .inr (.inr ⟨hdue.symm, hle⟩)
  · exact .inr (.inl hgt)

theorem precedes_antisymm (a b : String × Moment) (hab : precedes a b) (hba : precedes b a) :
    a = b := by
  rw [precedes_iff] at *
  rcases hab with hab | ⟨heq, hle⟩
  · rcases hba with hba | ⟨heq, -⟩
    · exact absurd hba (Int.lt_asymm hab)
    · exact absurd hab (heq ▸ Int.lt_irrefl _)
  · rcases hba with hba | ⟨-, hle'⟩
    · exact absurd hba (heq ▸ Int.lt_irrefl _)
    · exact Prod.ext (String.le_antisymm hle hle') heq

/-- The names that are due, sorted by insertion: unlike a merge sort, this can be evaluated. -/
theorem dueAt_eq_insertionSort : q.dueAt now =
    ((q.scheduled.toList.filter (·.2 ≤ now)).insertionSort (precedes · ·)).map (·.1) := by
  have : Std.Total (precedes · · : String × Moment → String × Moment → Prop) :=
    ⟨fun a b => Bool.or_eq_true .. ▸ precedes_total a b⟩
  have : IsTrans _ (precedes · · : String × Moment → String × Moment → Prop) := ⟨precedes_trans⟩
  have : Std.Antisymm (precedes · · : String × Moment → String × Moment → Prop) :=
    ⟨precedes_antisymm⟩
  rw [dueAt, ← List.mergeSort_eq_insertionSort]
  simp only [Bool.decide_eq_true]

theorem mem_dueAt :
    name ∈ q.dueAt now ↔ ∃ due, q.scheduled.get? name = some due ∧ due ≤ now := by
  simp only [dueAt, List.mem_map, List.mem_mergeSort, List.mem_filter, decide_eq_true_eq]
  constructor
  · rintro ⟨⟨n, due⟩, ⟨hmem, hdue⟩, rfl⟩
    exact ⟨due, Table.mem_toList_iff.mp hmem, hdue⟩
  · rintro ⟨due, hget, hdue⟩
    exact ⟨(name, due), ⟨Table.mem_toList_iff.mpr hget, hdue⟩, rfl⟩

theorem nodup_dueAt (q : WorkQueue) (now : Moment) : (q.dueAt now).Nodup := by
  have hperm : (q.dueAt now).Perm ((q.scheduled.toList.filter fun e => e.2 ≤ now).map (·.1)) :=
    (List.mergeSort_perm _ precedes).map _
  exact hperm.nodup_iff.mpr ((List.filter_sublist.map _).nodup q.scheduled.nodup_keys)

/-- A name that can be handed out waits, and its time has come. -/
theorem due_iff (h : q.WellKept) : q.ledger.Due now name ↔ name ∈ q.dueAt now := by
  rw [Ledger.Due, mem_busy, mem_dueAt]
  by_cases hbusy : q.busy.contains name
  · rw [h.get?_scheduled hbusy]
    simp [hbusy]
  · rw [h.pending_of_idle hbusy]
    simp [hbusy]

/-- The names that are due stand in the order of the ledger. -/
theorem pairwise_dueAt (q : WorkQueue) (now : Moment) :
    (q.dueAt now).Pairwise q.ledger.Before := by
  have hsorted : ((q.scheduled.toList.filter fun e => e.2 ≤ now).mergeSort precedes).Pairwise
      (precedes · ·) := List.pairwise_mergeSort precedes_trans precedes_total _
  have hpending : ∀ e ∈ (q.scheduled.toList.filter fun e => e.2 ≤ now).mergeSort precedes,
      q.ledger.pending e.1 = some e.2 := by
    intro e he
    have hmem := (List.mem_filter.mp (List.mem_mergeSort.mp he)).1
    rw [pending_eq, Table.mem_toList_iff.mp hmem, Option.some_or]
  have hdistinct := List.pairwise_map.mp (q.nodup_dueAt now)
  refine List.pairwise_map.mpr ((hsorted.and hdistinct).imp_of_mem ?_)
  rintro a b ha hb ⟨hprecedes, hne⟩
  refine ⟨a.2, b.2, hpending a ha, hpending b hb, ?_⟩
  rcases precedes_iff.mp hprecedes with hlt | ⟨heq, hle⟩
  · exact .inl hlt
  · refine .inr ⟨heq, Utf8.encode_lt_encode.mpr ?_⟩
    by_contra hnot
    exact hne (String.le_antisymm hle (String.not_lt.mp hnot))

/-- **The names that are handed out** are the first ones of those that are due. -/
theorem popDue_heads (h : q.WellKept) (now : Moment) (limit : Nat) :
    q.ledger.Heads now limit (q.popDue now limit).1 := by
  have hsorted := q.pairwise_dueAt now
  show q.ledger.Heads now limit ((q.dueAt now).take limit)
  constructor
  · intro name hname
    exact (due_iff h).mpr (List.mem_of_mem_take hname)
  · exact hsorted.sublist (List.take_sublist ..)
  · have hdue : {name | q.ledger.Due now name} = ((q.dueAt now).toFinset : Set String) := by
      ext name
      rw [Set.mem_ofPred_eq, due_iff h, Finset.mem_coe, List.mem_toFinset]
    rw [hdue, Set.ncard_coe_finset, List.toFinset_card_of_nodup (q.nodup_dueAt now),
      List.length_take]
  · intro name hname left hleft hnot
    rw [due_iff h, ← List.take_append_drop limit (q.dueAt now), List.mem_append] at hleft
    rw [← List.take_append_drop limit (q.dueAt now), List.pairwise_append] at hsorted
    exact hsorted.2.2 name hname left (hleft.resolve_left hnot)

/-- What a queue holds once it has handed out names. -/
theorem get?_popDue (q : WorkQueue) (now : Moment) (limit : Nat) (n : String) :
    (q.popDue now limit).2.scheduled.get? n =
        (if n ∈ (q.popDue now limit).1 then none else q.scheduled.get? n) ∧
      (q.popDue now limit).2.busy.contains n =
        (decide (n ∈ (q.popDue now limit).1) || q.busy.contains n) ∧
      (q.popDue now limit).2.deferred = q.deferred :=
  get?_handOut ((q.dueAt now).take limit) q n

theorem WellKept.popDue (h : q.WellKept) (now : Moment) (limit : Nat) :
    (q.popDue now limit).2.WellKept := by
  refine ⟨fun n hn => ?_, fun n hn => ?_⟩
  · obtain ⟨hscheduled, hbusy, -⟩ := get?_popDue q now limit n
    rw [Table.contains, hscheduled]
    rw [hbusy, Bool.or_eq_true, decide_eq_true_eq] at hn
    split
    · rfl
    · next hnot => exact h.apart n (hn.resolve_left hnot)
  · obtain ⟨-, hbusy, hdeferred⟩ := get?_popDue q now limit n
    rw [hdeferred] at hn
    rw [hbusy, h.parked n hn, Bool.or_true]

theorem ledger_popDue (h : q.WellKept) (now : Moment) (limit : Nat) :
    (q.popDue now limit).2.ledger = q.ledger.handOut (q.popDue now limit).1 := by
  refine Ledger.ext (funext fun n => ?_) (Finset.ext fun n => ?_)
  · obtain ⟨hscheduled, -, hdeferred⟩ := get?_popDue q now limit n
    rw [pending_eq, hscheduled, hdeferred, Ledger.handOut]
    dsimp only
    split
    · next hn =>
      -- nothing is parked behind a name that was not busy
      have hidle := ((popDue_heads h now limit).due n hn).1
      rw [mem_busy] at hidle
      rw [h.get?_deferred hidle, Option.none_or]
    · rw [pending_eq]
  · obtain ⟨-, hbusy, -⟩ := get?_popDue q now limit n
    rw [mem_busy, hbusy, Ledger.handOut, Finset.mem_union, List.mem_toFinset, mem_busy,
      Bool.or_eq_true, decide_eq_true_eq, or_comm]

/-! ## A queue shows what its ledger shows -/

theorem WellKept.perform (h : q.WellKept) (call : Call) : (q.perform call).2.WellKept := by
  cases call with
  | schedule name due => exact h.schedule name due
  | popDue now limit => exact h.popDue now limit
  | done name => exact h.release name

theorem WellKept.performAll (h : q.WellKept) (calls : List Call) : (q.performAll calls).WellKept := by
  induction calls generalizing q with
  | nil => exact h
  | cons call calls ih => exact ih (h.perform call)

/-- **A call to the queue is a step of its ledger.** -/
theorem ledger_step (h : q.WellKept) (call : Call) :
    q.ledger.Step call (q.perform call).1 (q.perform call).2.ledger := by
  cases call with
  | schedule name due =>
    rw [perform, ledger_schedule h]
    exact .schedule name due
  | popDue now limit =>
    rw [perform, ledger_popDue h]
    exact .popDue (popDue_heads h now limit)
  | done name =>
    rw [perform, ledger_release h]
    exact .done name

theorem foldl_earlier (t : Moment) (ts : List Moment) :
    ts.foldl Moment.earlier t ∈ t :: ts ∧ ∀ s ∈ t :: ts, ts.foldl Moment.earlier t ≤ s := by
  induction ts generalizing t with
  | nil => simp [Moment.le_refl]
  | cons s ts ih =>
    obtain ⟨hmem, hleast⟩ := ih (t.earlier s)
    rw [List.foldl_cons]
    constructor
    · rcases List.mem_cons.mp hmem with heq | hmem
      · rw [heq]
        rcases t.earlier_cases s with h | h <;> simp [h]
      · exact List.mem_cons_of_mem _ (List.mem_cons_of_mem _ hmem)
    · intro u hu
      have hfirst := hleast _ (List.mem_cons_self ..)
      rcases List.mem_cons.mp hu with rfl | hu
      · exact Moment.le_trans hfirst (Moment.earlier_le_left ..)
      · rcases List.mem_cons.mp hu with rfl | hu
        · exact Moment.le_trans hfirst (Moment.earlier_le_right ..)
        · exact hleast u (List.mem_cons_of_mem _ hu)

/-- The next moment is the least one for which an idle name is asked for. -/
theorem ledger_next (h : q.WellKept) : q.ledger.Next q.nextDue := by
  have hvalues : ∀ due, due ∈ q.scheduled.values ↔ ∃ name ∉ q.ledger.busy,
      q.ledger.pending name = some due := by
    intro due
    rw [Table.values, List.mem_map]
    constructor
    · rintro ⟨⟨name, t⟩, hmem, rfl⟩
      have hget := Table.mem_toList_iff.mp hmem
      have hidle : ¬ q.busy.contains name := fun hbusy =>
        absurd ((h.get?_scheduled hbusy).symm.trans hget) nofun
      exact ⟨name, mem_busy.not.mpr hidle, (h.pending_of_idle hidle).trans hget⟩
    · rintro ⟨name, hidle, hpending⟩
      rw [h.pending_of_idle (mem_busy.not.mp hidle)] at hpending
      exact ⟨(name, due), Table.mem_toList_iff.mpr hpending, rfl⟩
  rw [nextDue]
  cases hlist : q.scheduled.values with
  | nil =>
    intro name hidle
    refine Option.eq_none_iff_forall_ne_some.mpr fun due hpending => ?_
    have hmem := (hvalues due).mpr ⟨name, hidle, hpending⟩
    rw [hlist] at hmem
    cases hmem
  | cons t ts =>
    rw [hlist] at hvalues
    obtain ⟨hmem, hleast⟩ := foldl_earlier t ts
    exact ⟨(hvalues _).mp hmem, fun name hidle due hpending =>
      hleast due ((hvalues due).mpr ⟨name, hidle, hpending⟩)⟩

theorem shows_trace (h : q.WellKept) (calls : List Call) :
    q.ledger.Shows (q.trace calls) (q.performAll calls).ledger := by
  induction calls generalizing q with
  | nil => exact .nothing _
  | cons call calls ih =>
    have hnext := h.perform call
    exact .call (ledger_step h call) (ledger_next hnext) (inFlight_eq _) (ih hnext)

theorem map_fst_trace (q : WorkQueue) (calls : List Call) : (q.trace calls).map (·.1) = calls := by
  induction calls generalizing q with
  | nil => rfl
  | cons call calls ih => rw [trace, List.map_cons, ih]

/-- A name stays busy through calls that are not done with it. -/
theorem mem_busy_performAll (h : q.WellKept) {calls : List Call} (hbusy : name ∈ q.ledger.busy)
    (hdone : .done name ∉ calls) : name ∈ (q.performAll calls).ledger.busy := by
  induction calls generalizing q with
  | nil => exact hbusy
  | cons call calls ih =>
    rw [List.mem_cons, not_or] at hdone
    exact ih (h.perform call) ((ledger_step h call).mem_busy hbusy (Ne.symm hdone.1)) hdone.2

/-- A request stays through calls that do not hand out its name. -/
theorem pending_performAll (h : q.WellKept) {calls : List Call}
    (hdue : q.ledger.pending name = some due)
    (hkept : ∀ early call late, calls = early ++ call :: late →
      name ∉ ((q.performAll early).perform call).1) :
    ∃ asked, (q.performAll calls).ledger.pending name = some asked ∧ asked ≤ due := by
  induction calls generalizing q due with
  | nil => exact ⟨due, hdue, due.le_refl⟩
  | cons call calls ih =>
    obtain ⟨asked, hasked, hle⟩ := (ledger_step h call).pending hdue (hkept [] call calls rfl)
    obtain ⟨last, hlast, hle'⟩ := ih (h.perform call) hasked fun early call' late heq =>
      hkept (call :: early) call' late (by rw [heq, List.cons_append])
    exact ⟨last, hlast, Moment.le_trans hle' hle⟩

/-- **A queue is a ledger.** After whatever calls, what there has been to see is what a ledger
shows, and a ledger shows nothing else. The three tables fit together; who is left, although due,
has been overtaken by names only that come first; no name is handed out twice unless it was done
in between; and a request stays until its name is handed out. -/
theorem trace_exact (calls : List Call) :
    let q := performAll {} calls
    (∀ views, ((∃ l, Ledger.Shows {} views l) ∧ views.map (·.1) = calls) ↔ views = trace {} calls) ∧
    Ledger.Shows {} (trace {} calls) q.ledger ∧
    q.WellKept ∧
    (∀ now limit name, q.ledger.Due now name → name ∉ (q.popDue now limit).1 →
      ∀ other ∈ (q.popDue now limit).1, q.ledger.Before other name) ∧
    (∀ call between call' name, name ∈ (q.perform call).1 →
      name ∈ (((q.perform call).2.performAll between).perform call').1 → .done name ∈ between) ∧
    ∀ name due between, (∀ early call late, between = early ++ call :: late →
        name ∉ (((q.schedule name due).performAll early).perform call).1) →
      ∃ asked, ((q.schedule name due).performAll between).ledger.pending name = some asked ∧
        asked ≤ due := by
  intro q
  have hstart : WellKept {} := .empty
  have hshows := shows_trace hstart calls
  have hq : q.WellKept := hstart.performAll calls
  refine ⟨fun views => ⟨?_, ?_⟩, hshows, hq, ?_, ?_, ?_⟩
  · rintro ⟨⟨l, hl⟩, hcalls⟩
    exact (hl.unique hshows (hcalls.trans (map_fst_trace _ calls).symm)).1
  · rintro rfl
    exact ⟨⟨_, hshows⟩, map_fst_trace _ calls⟩
  · intro now limit name hdue hleft other hother
    exact (popDue_heads hq now limit).first other hother name hdue hleft
  · intro call between call' name hname hagain
    have hbusy := ((ledger_step hq call).of_mem hname).2
    have hlater := (hq.perform call).performAll between
    by_contra hdone
    exact ((ledger_step hlater call').of_mem hagain).1
      (mem_busy_performAll (hq.perform call) hbusy hdone)
  · intro name due between hkept
    obtain ⟨asked, hasked, hle⟩ := q.ledger.pending_schedule name due
    rw [← ledger_schedule hq] at hasked
    obtain ⟨last, hlast, hle'⟩ := pending_performAll (hq.schedule name due) hasked hkept
    exact ⟨last, hlast, Moment.le_trans hle' hle⟩

/-- Of three names two are handed out. One of them is asked for meanwhile and is handed out again once
it is done; a name that nobody knows is done as well. -/
def parked : List Call :=
  [.schedule "b" ⟨5⟩, .schedule "a" ⟨5⟩, .schedule "c" ⟨3⟩, .popDue ⟨5⟩ 2, .schedule "a" ⟨1⟩,
    .done "d", .done "a"]

theorem trace_exact_parked :
    (∃ l, Ledger.Shows {} (parked.zip [⟨[], some ⟨5⟩, 0⟩, ⟨[], some ⟨5⟩, 0⟩, ⟨[], some ⟨3⟩, 0⟩,
      ⟨["c", "a"], some ⟨5⟩, 2⟩, ⟨[], some ⟨5⟩, 2⟩, ⟨[], some ⟨5⟩, 2⟩, ⟨[], some ⟨1⟩, 1⟩]) l) ∧
    ((performAll {} parked).popDue ⟨6⟩ 1).1 = ["a"] ∧
    (performAll {} parked).ledger.Before "a" "b" ∧
    .done "a" ∈ parked.drop 4 ∧
    ∃ asked, (performAll {} (parked.take 5)).ledger.pending "a" = some asked ∧ asked ≤ ⟨1⟩ := by
  have hfirst : ((performAll {} (parked.take 3)).popDue ⟨5⟩ 2).1 = ["c", "a"] := by
    rw [popDue, dueAt_eq_insertionSort]
    decide +kernel
  have hafter : performAll {} parked =
      (performAll {} [.schedule "b" ⟨5⟩, .schedule "a" ⟨1⟩]).handOut "c" := by
    simp only [parked, performAll, List.foldl, perform, popDue, dueAt_eq_insertionSort]
    decide +kernel
  have hagain : ((performAll {} parked).popDue ⟨6⟩ 1).1 = ["a"] := by
    rw [hafter, popDue, dueAt_eq_insertionSort]
    decide +kernel
  have hleft : (performAll {} parked).ledger.Due ⟨6⟩ "b" := by
    rw [hafter]
    exact ⟨mem_busy.not.mpr (by decide), ⟨5⟩, by decide, by decide⟩
  refine ⟨((trace_exact parked).1 _).mpr ?_ |>.1, hagain, ?_, ?_, ?_⟩
  · simp only [parked, trace, perform, popDue, dueAt_eq_insertionSort]
    decide +kernel
  · exact (trace_exact parked).2.2.2.1 ⟨6⟩ 1 "b" hleft (by simp [hagain]) "a" (by simp [hagain])
  · exact (trace_exact (parked.take 3)).2.2.2.2.1 (.popDue ⟨5⟩ 2) (parked.drop 4) (.popDue ⟨6⟩ 1)
      "a" (hfirst ▸ by simp) (hagain ▸ by simp)
  · exact (trace_exact (parked.take 4)).2.2.2.2.2 "a" ⟨1⟩ [] (by simp)

end WorkQueue

end JobOperator
