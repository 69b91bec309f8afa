import JobOperator.Proofs.Cluster.Basic

/-!
# What an event does

* `Invocation.Coherent`: an invocation does what the reconciler's script does after the
  answers it has had, and every answer that is no error is one that a store of the
  run gives. So it keeps the discipline of the script (`Coherent.rule`), and what it
  has read was there at some time (`Coherent.recorded`).
* `Invocation.Continues`: an invocation is never changed but by going on.
* `Cluster.Origin`: where a call to the store comes from; `Cluster.next_cases` says that
  an event that touches the store is one call from one of these sources, and does to the
  store what this call can do.
-/

namespace JobOperator

open Cluster

namespace Invocation

variable {t : Worker.Template} {inv inv' : Invocation} {stores stores' : List MemoryStore}

/-- An invocation follows its script, and has heard what the stores say. -/
structure Coherent (t : Worker.Template) (stores : List MemoryStore) (inv : Invocation) :
    Prop where
  /-- its transcript leads to what it has still to do -/
  leads : ∃ s, (inv.script t).Leads inv.log s ∧ ∀ rest, inv.rest = some rest → rest = s
  /-- a value that was answered is the answer of one of the stores -/
  heard : ∀ call value, ⟨call, .ok value⟩ ∈ inv.log →
    ∃ s ∈ stores, ∃ clock, (s.answer clock call).1 = .ok value

/-- The second invocation is the first one, perhaps some time later. -/
structure Continues (inv inv' : Invocation) : Prop where
  job : inv'.job = inv.job
  now : inv'.now = inv.now
  pacing : inv'.pacing = inv.pacing
  log : inv.log <+: inv'.log

theorem Continues.refl (inv : Invocation) : inv.Continues inv :=
  ⟨rfl, rfl, rfl, List.prefix_refl _⟩

theorem Continues.hear (inv : Invocation) (call : StoreCall) (reply : call.Answer)
    (rest : StoreScript (Except ReconcileError Requeue)) :
    inv.Continues (inv.hear call reply rest) :=
  ⟨rfl, rfl, rfl, List.prefix_append _ _⟩

/-- An invocation makes its next call by the rule. -/
theorem Coherent.rule {call : StoreCall}
    {resume : call.Answer → StoreScript (Except ReconcileError Requeue)}
    (h : inv.Coherent t stores) (hrest : inv.rest = some (.ask call resume)) :
    (inv.reconciler t).Rule inv.job inv.now inv.log call := by
  obtain ⟨s, hleads, hs⟩ := h.leads
  obtain rfl := hs _ hrest
  exact ((Reconciler.reconcile_obeys _ _ _).leads hleads).1

/-- An invocation has made every call by the rule. -/
theorem Coherent.rule_of_mem {before after : StoreTranscript}
    {x : Script.Exchange StoreCall StoreCall.Answer} (h : inv.Coherent t stores)
    (hlog : inv.log = before ++ x :: after) :
    (inv.reconciler t).Rule inv.job inv.now before x.question := by
  obtain ⟨s, hleads, -⟩ := h.leads
  exact hleads.rule_of_mem (Reconciler.reconcile_obeys _ _ _) hlog

theorem Coherent.begin (job : String) (now : Instant) (pacing : Pacing) :
    (Invocation.begin t job now pacing).Coherent t stores :=
  ⟨⟨_, .start, fun _ hr => (Option.some.inj hr).symm⟩, fun _ _ hm => absurd hm List.not_mem_nil⟩

theorem Coherent.mono (h : inv.Coherent t stores) (hsub : stores ⊆ stores') :
    inv.Coherent t stores' := by
  refine ⟨h.leads, fun call value hm => ?_⟩
  obtain ⟨s, hs, heq⟩ := h.heard call value hm
  exact ⟨s, hsub hs, heq⟩

theorem Coherent.cut (h : inv.Coherent t stores) : { inv with rest := none }.Coherent t stores := by
  obtain ⟨s, hleads, -⟩ := h.leads
  exact ⟨⟨s, hleads, nofun⟩, h.heard⟩

theorem Coherent.hear {call : StoreCall}
    {resume : call.Answer → StoreScript (Except ReconcileError Requeue)} {reply : call.Answer}
    (h : inv.Coherent t stores) (hrest : inv.rest = some (.ask call resume))
    (hreply : ∀ value, reply = .ok value →
      ∃ s ∈ stores, ∃ clock, (s.answer clock call).1 = .ok value) :
    (inv.hear call reply (resume reply)).Coherent t stores := by
  obtain ⟨s, hleads, hs⟩ := h.leads
  obtain rfl := hs _ hrest
  refine ⟨⟨_, hleads.answered reply, fun rest hr => (Option.some.inj hr).symm⟩,
    fun call' value hm => ?_⟩
  rcases List.mem_append.mp hm with hm | hm
  · exact h.heard call' value hm
  · cases List.mem_singleton.mp hm
    exact hreply value rfl

/-- What an invocation has read was stored at some time. -/
theorem Coherent.recorded {job : Job} (h : inv.Coherent t stores)
    (hread : Reconciler.HasRead inv.job inv.log job) :
    ∃ s ∈ stores, s.jobs.get? inv.job = some job := by
  obtain ⟨s, hs, clock, heq⟩ := h.heard _ _ hread.mem
  exact ⟨s, hs, MemoryStore.getJob_eq_ok.mp heq⟩

end Invocation

namespace Cluster

variable {t : Worker.Template} {c c' : Cluster} {e : Event}

/-- Where a call to the store comes from. -/
inductive Origin (t : Worker.Template) (c c' : Cluster) : Event → StoreCall → Prop where
  | submitted (submission : Job.Submission) {uid : Uid} (createdAt : Instant)
      (fresh : uid ∉ c.issued) (issued : c'.issued = uid :: c.issued) :
      Origin t c c' (.submit submission uid createdAt) (.createJob (submission.toJob uid createdAt))
  | withdrawn (job : String) : Origin t c c' (.withdraw job) (.deleteJob job)
  | reported (worker : String) (phase : Worker.Phase) :
      Origin t c c' (.report worker phase) (.updateWorkerPhase worker phase)
  | lost (worker : String) : Origin t c c' (.lose worker) (.deleteWorker worker)
  /-- an invocation makes the call, and goes on -/
  | turned {i : Nat} {clock : Instant} {fate : Fate} {inv : Invocation} {call : StoreCall}
      {resume : call.Answer → StoreScript (Except ReconcileError Requeue)} {reply : call.Answer}
      (before : c.invocations[i]? = some inv) (rest : inv.rest = some (.ask call resume))
      (after : c'.invocations[i]? = some (inv.hear call reply (resume reply)))
      (met : c.meet clock call fate = some (reply, c'.store)) :
      Origin t c c' (.turn i clock fate) call

/-- **What an event does**: nothing to the store, or one call. -/
theorem next_cases (h : c.next t e = some c') :
    (c'.stores = c.stores ∧ c'.issued = c.issued) ∨
      c'.stores = c'.store :: c.stores ∧ c.issued ⊆ c'.issued ∧
        ∃ call, Origin t c c' e call ∧ c.store.Change call c'.store := by
  cases e with
  | submit submission uid createdAt =>
    obtain ⟨hfresh, rfl⟩ := next_submit h
    exact .inr ⟨rfl, List.subset_cons_self .., _, .submitted submission createdAt hfresh rfl,
      c.store.answer_change default (.createJob _)⟩
  | withdraw job =>
    obtain rfl := Option.some.inj h
    exact .inr ⟨rfl, List.Subset.refl _, _, .withdrawn job,
      c.store.answer_change default (.deleteJob job)⟩
  | report worker phase =>
    obtain rfl := Option.some.inj h
    exact .inr ⟨rfl, List.Subset.refl _, _, .reported worker phase,
      c.store.answer_change default (.updateWorkerPhase worker phase)⟩
  | lose worker =>
    obtain rfl := Option.some.inj h
    exact .inr ⟨rfl, List.Subset.refl _, _, .lost worker,
      c.store.answer_change default (.deleteWorker worker)⟩
  | start =>
    obtain rfl := Option.some.inj h
    exact .inl ⟨rfl, rfl⟩
  | cut i =>
    obtain ⟨_, -, rfl⟩ := Option.map_eq_some_iff.mp h
    exact .inl ⟨rfl, rfl⟩
  | turn i clock fate =>
    obtain ⟨inv, call, resume, reply, store, hinv, hrest, hmeet, rfl⟩ := next_turn h
    have hlt : i < c.invocations.length := (List.getElem?_eq_some_iff.mp hinv).1
    exact .inr ⟨rfl, List.Subset.refl _, call,
      .turned hinv hrest (List.getElem?_set_self hlt) hmeet, meet_change hmeet⟩

/-- Stores are only added to those there have been. -/
theorem next_stores (h : c.next t e = some c') : c.stores ⊆ c'.stores := by
  rcases next_cases h with ⟨hstores, -⟩ | ⟨hstores, -⟩
  · rw [hstores]
    exact List.Subset.refl _
  · rw [hstores]
    exact List.subset_cons_self ..

/-- What has been given out has been given out. -/
theorem next_issued (h : c.next t e = some c') : c.issued ⊆ c'.issued := by
  rcases next_cases h with ⟨-, hissued⟩ | ⟨-, hissued, -⟩
  · rw [hissued]
    exact List.Subset.refl _
  · exact hissued

/-- Every invocation keeps its place. -/
theorem next_invocations (h : c.next t e = some c') {i : Nat} {inv : Invocation}
    (hinv : c.invocations[i]? = some inv) :
    ∃ inv', c'.invocations[i]? = some inv' ∧ inv.Continues inv' := by
  have hlt : i < c.invocations.length := (List.getElem?_eq_some_iff.mp hinv).1
  -- replacing an invocation by a continuation of it
  have hset : ∀ {j : Nat} {old new : Invocation}, c.invocations[j]? = some old →
      old.Continues new →
      ∃ inv', (c.invocations.set j new)[i]? = some inv' ∧ inv.Continues inv' := by
    intro j old new hold hcont
    by_cases hij : j = i
    · subst hij
      obtain rfl := Option.some.inj (hinv.symm.trans hold)
      exact ⟨new, List.getElem?_set_self hlt, hcont⟩
    · exact ⟨inv, by rw [List.getElem?_set_ne hij]; exact hinv, .refl inv⟩
  cases e with
  | submit =>
    obtain ⟨-, rfl⟩ := next_submit h
    exact ⟨inv, hinv, .refl inv⟩
  | withdraw | report | lose =>
    obtain rfl := Option.some.inj h
    exact ⟨inv, hinv, .refl inv⟩
  | start =>
    obtain rfl := Option.some.inj h
    exact ⟨inv, by rw [← hinv]; exact List.getElem?_append_left hlt, .refl inv⟩
  | turn j clock fate =>
    obtain ⟨old, call, resume, reply, _, hold, -, -, rfl⟩ := next_turn h
    exact hset hold (.hear old call reply (resume reply))
  | cut j =>
    obtain ⟨old, hold, rfl⟩ := Option.map_eq_some_iff.mp h
    exact hset hold ⟨rfl, rfl, rfl, List.prefix_refl _⟩

/-- An invocation stays as it is, but for what may be left of it, or hears the answer to a
call. -/
theorem next_hears (h : c.next t e = some c') {inv : Invocation} (hinv : inv ∈ c.invocations) :
    ∃ inv' ∈ c'.invocations, (inv'.job = inv.job ∧ inv'.log = inv.log) ∨
      ∃ i clock fate call resume reply, e = .turn i clock fate ∧
        inv.rest = some (.ask call resume) ∧ c.meet clock call fate = some (reply, c'.store) ∧
        inv' = inv.hear call reply (resume reply) := by
  obtain ⟨i, hi⟩ := List.mem_iff_getElem?.mp hinv
  have hlt : i < c.invocations.length := (List.getElem?_eq_some_iff.mp hi).1
  cases e with
  | submit =>
    obtain ⟨-, rfl⟩ := next_submit h
    exact ⟨inv, hinv, .inl ⟨rfl, rfl⟩⟩
  | withdraw | report | lose =>
    obtain rfl := Option.some.inj h
    exact ⟨inv, hinv, .inl ⟨rfl, rfl⟩⟩
  | start =>
    obtain rfl := Option.some.inj h
    exact ⟨inv, List.mem_append_left _ hinv, .inl ⟨rfl, rfl⟩⟩
  | turn j clock fate =>
    obtain ⟨old, call, resume, reply, store, hold, hrest, hmeet, rfl⟩ := next_turn h
    by_cases hij : j = i
    · subst hij
      obtain rfl := Option.some.inj (hi.symm.trans hold)
      exact ⟨_, List.mem_of_getElem? (List.getElem?_set_self hlt), .inr
        ⟨j, clock, fate, call, resume, reply, rfl, hrest, hmeet, rfl⟩⟩
    · exact ⟨inv, List.mem_of_getElem? ((List.getElem?_set_ne hij).trans hi), .inl ⟨rfl, rfl⟩⟩
  | cut j =>
    obtain ⟨old, hold, rfl⟩ := Option.map_eq_some_iff.mp h
    by_cases hij : j = i
    · subst hij
      obtain rfl := Option.some.inj (hi.symm.trans hold)
      exact ⟨_, List.mem_of_getElem? (List.getElem?_set_self hlt), .inl ⟨rfl, rfl⟩⟩
    · exact ⟨inv, List.mem_of_getElem? ((List.getElem?_set_ne hij).trans hi), .inl ⟨rfl, rfl⟩⟩

/-- What an event adds to the transcripts: it leaves them, begins a new one, or adds a call to
one of them. -/
theorem next_log_cases (hstep : c.next t e = some c') {inv' : Invocation}
    (hinv' : inv' ∈ c'.invocations) :
    inv'.log = [] ∨
      (∃ inv ∈ c.invocations, inv'.job = inv.job ∧ inv'.log = inv.log) ∨
      ∃ i clock fate inv call resume reply, e = .turn i clock fate ∧ inv ∈ c.invocations ∧
        inv.rest = some (.ask call resume) ∧ c.meet clock call fate = some (reply, c'.store) ∧
        inv' = inv.hear call reply (resume reply) := by
  cases e with
  | submit =>
    obtain ⟨-, rfl⟩ := next_submit hstep
    exact .inr (.inl ⟨inv', hinv', rfl, rfl⟩)
  | withdraw | report | lose =>
    obtain rfl := Option.some.inj hstep
    exact .inr (.inl ⟨inv', hinv', rfl, rfl⟩)
  | start job now pacing =>
    obtain rfl := Option.some.inj hstep
    rcases List.mem_append.mp hinv' with hinv' | hinv'
    · exact .inr (.inl ⟨inv', hinv', rfl, rfl⟩)
    · obtain rfl := List.mem_singleton.mp hinv'
      exact .inl rfl
  | turn i clock fate =>
    obtain ⟨inv, call, resume, reply, store, hinv, hrest, hmeet, rfl⟩ := next_turn hstep
    rcases List.mem_or_eq_of_mem_set hinv' with hinv' | rfl
    · exact .inr (.inl ⟨inv', hinv', rfl, rfl⟩)
    · exact .inr (.inr ⟨i, clock, fate, inv, call, resume, reply, rfl,
        List.mem_of_getElem? hinv, hrest, hmeet, rfl⟩)
  | cut i =>
    obtain ⟨inv, hinv, rfl⟩ := Option.map_eq_some_iff.mp hstep
    rcases List.mem_or_eq_of_mem_set hinv' with hinv' | rfl
    · exact .inr (.inl ⟨inv', hinv', rfl, rfl⟩)
    · exact .inr (.inl ⟨inv, List.mem_of_getElem? hinv, rfl, rfl⟩)

/-- Coherent invocations stay coherent, and new ones are. -/
theorem coherent_next (hcoh : ∀ inv ∈ c.invocations, inv.Coherent t c.stores)
    (h : c.next t e = some c') : ∀ inv ∈ c'.invocations, inv.Coherent t c'.stores := by
  have hsub := next_stores h
  cases e with
  | submit =>
    obtain ⟨-, rfl⟩ := next_submit h
    exact fun inv hinv => (hcoh inv hinv).mono hsub
  | withdraw | report | lose =>
    obtain rfl := Option.some.inj h
    exact fun inv hinv => (hcoh inv hinv).mono hsub
  | start job now pacing =>
    obtain rfl := Option.some.inj h
    intro inv hinv
    rcases List.mem_append.mp hinv with hinv | hinv
    · exact (hcoh inv hinv).mono hsub
    · obtain rfl := List.mem_singleton.mp hinv
      exact .begin job now pacing
  | turn i clock fate =>
    obtain ⟨old, call, resume, reply, store, hold, hrest, hmeet, rfl⟩ := next_turn h
    intro inv hinv
    rcases List.mem_or_eq_of_mem_set hinv with hinv | rfl
    · exact (hcoh inv hinv).mono hsub
    · refine ((hcoh old (List.mem_of_getElem? hold)).mono hsub).hear hrest fun value hv => ?_
      subst hv
      obtain ⟨s, hs, heq⟩ := meet_ok hmeet
      exact ⟨s, hsub hs, clock, heq⟩
  | cut i =>
    obtain ⟨old, hold, rfl⟩ := Option.map_eq_some_iff.mp h
    intro inv hinv
    rcases List.mem_or_eq_of_mem_set hinv with hinv | rfl
    · exact hcoh inv hinv
    · exact (hcoh old (List.mem_of_getElem? hold)).cut

end Cluster

end JobOperator
