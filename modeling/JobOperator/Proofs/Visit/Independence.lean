import JobOperator.Proofs.Cluster.Records
import JobOperator.Proofs.Visit.Account
import JobOperator.Proofs.Visit.Part

/-!
# Jobs do not interfere

Invocations for two jobs work on two parts of the store, so it does not matter which of them
comes first.

* `MemoryStore.Twin`: the stores are the same, but for the times at which workers were created.
* `Reconciler.visited_comm`: calm visits for two jobs commute.
* `Cluster.Run.attend`: what an invocation leaves behind that has the store to itself is again the
  store of a cluster that comes about, so that nothing has to be proved of it anew.
* `Cluster.attend_independent`: in every cluster that comes about, an invocation for one job leaves
  another job alone, and two of them end and leave behind the same in both orders.

Nothing is supposed of the two names but that they are different. The name of one job may well be
that of a worker of the other.
-/

namespace JobOperator

/-- The stores are the same, but for the times at which workers were created. -/
structure MemoryStore.Twin (m m' : MemoryStore) : Prop where
  jobs : m.jobs = m'.jobs
  workers : ∀ n, (m.workers.get? n).map Worker.undated = (m'.workers.get? n).map Worker.undated

namespace MemoryStore.Twin

variable {m m' : MemoryStore}

theorem refl (m : MemoryStore) : m.Twin m := ⟨rfl, fun _ => rfl⟩

/-- What belongs to a job is the same. -/
theorem part (h : m.Twin m') (name : String) : (m.part name).Twin (m'.part name) := by
  refine ⟨?_, fun n => ?_⟩
  · rw [MemoryStore.part, MemoryStore.part, h.jobs]
  · rw [worker_part, worker_part]
    exact Worker.filter_undated (h.workers n) fun _ => rfl

/-- A worker that is found in one of the stores is found in the other one, if the parts are
twins. -/
theorem worker_of_part (h : ∀ name, (m.part name).Twin (m'.part name)) {n : String}
    {worker : Worker} (hw : m.workers.get? n = some worker) :
    ∃ worker', m'.workers.get? n = some worker' ∧ worker.undated = worker'.undated := by
  have hpart := (h worker.owner.name).workers n
  rw [worker_part_eq_some.mpr ⟨hw, rfl⟩] at hpart
  obtain ⟨worker', hw', hsame⟩ := Option.map_eq_some_iff.mp hpart.symm
  exact ⟨worker', (worker_part_eq_some.mp hw').1, hsame.symm⟩

theorem symm (h : m.Twin m') : m'.Twin m := ⟨h.jobs.symm, fun n => (h.workers n).symm⟩

/-- Stores are twins if the parts of all jobs are. -/
theorem of_parts (h : ∀ name, (m.part name).Twin (m'.part name)) : m.Twin m' := by
  refine ⟨Table.ext fun n => ?_, fun n => ?_⟩
  · rw [← job_part_self m, (h n).jobs, job_part_self]
  · cases hw : m.workers.get? n with
    | some worker =>
      obtain ⟨worker', hw', hsame⟩ := worker_of_part h hw
      rw [hw', Option.map_some, Option.map_some, hsame]
    | none =>
      cases hw' : m'.workers.get? n with
      | none => rfl
      | some worker' =>
        obtain ⟨worker, hw₂, -⟩ := worker_of_part (fun name => (h name).symm) hw'
        cases hw.symm.trans hw₂

end MemoryStore.Twin

namespace Reconciler

variable {r : Reconciler} {m m' : MemoryStore} {a b name : String}
  {now now' clock clock' : Instant}

/-! ## What a visit ends with -/

theorem attend_absent (absent : m.jobs.get? name = none) :
    r.attend name now clock m = ⟨.ok .done, m, [.getJob name]⟩ := by
  have hreply : m.answer clock (.getJob name) = (.error (.notFound .job name), m) := by
    rw [MemoryStore.answer, MemoryStore.getJob, absent]
  exact Script.account_call hreply rfl

theorem attend_store_eq (consistent : m.Consistent) :
    (r.attend name now clock m).store = r.visited now clock m name := by
  rw [attend_store, visit_calm consistent]

/-- What an invocation answers is a matter of the part of its job. -/
theorem result_of_part_eq (h : m.Separable) (h' : m'.Separable)
    (hpart : m'.part name = m.part name) :
    (r.attend name now clock' m').result = (r.attend name now clock m).result := by
  have hjob : m'.jobs.get? name = m.jobs.get? name := (MemoryStore.part_eq_iff.mp hpart).1
  cases found : m.jobs.get? name with
  | none => rw [attend_absent found, attend_absent (hjob.trans found)]
  | some job =>
    have named := h.consistent.named name job found
    subst named
    have found' := hjob.trans found
    rw [(attend_found found).1, (attend_found found').1, ← directed_part h found,
      ← directed_part h' found', hpart]

/-! ## Visits in either order -/

theorem carriedOut_jobs (job : Job) (step : Step) :
    (r.carriedOut clock m job step).jobs = (r.carriedOut clock' m job step).jobs := by
  by_cases heffect : step.effect = .create
  · rw [carriedOut_of_create heffect, carriedOut_of_create heffect, MemoryStore.record,
      MemoryStore.record, supplied, supplied, MemoryStore.createWorker_jobs,
      MemoryStore.createWorker_jobs]
  · rw [carriedOut_of_ne_create heffect, carriedOut_of_ne_create heffect]

/-- What a visit makes of the records of jobs does not depend on the store's clock. -/
theorem visited_jobs (name : String) :
    (r.visited now clock m name).jobs = (r.visited now clock' m name).jobs := by
  cases found : m.jobs.get? name with
  | none => rw [visited_of_absent found, visited_of_absent found]
  | some job =>
    rw [visited_of_found found, visited_of_found found]
    cases hterm : job.status.phase.terminal with
    | true => rw [handled_of_terminal hterm, handled_of_terminal hterm]
    | false =>
      rw [handled_of_alive hterm, handled_of_alive hterm]
      exact carriedOut_jobs job _

theorem visited_twin (h : m.Consistent) (now clock clock' : Instant) (name : String) :
    (r.visited now clock m name).Twin (r.visited now clock' m name) :=
  ⟨visited_jobs name, (visited_alike (.refl m) h h now clock clock' name).workers⟩

/-- The part of a job after the visits for it and for another one, in this order or in the
other. -/
theorem part_visited_comm {clock₁ clock₂ clock₃ clock₄ : Instant} (h : m.Separable)
    (ha : (r.visited now clock₁ m a).Separable) (hb : (r.visited now' clock₃ m b).Separable)
    (hne : a ≠ b) :
    ((r.visited now' clock₂ (r.visited now clock₁ m a) b).part a).Twin
      ((r.visited now clock₄ (r.visited now' clock₃ m b) a).part a) := by
  rw [part_visited_ne ha hne, part_visited hb, part_visited_ne h hne, ← part_visited h]
  exact (visited_twin h.consistent now clock₁ clock₄ a).part a

/-- **Visits for two jobs commute.** -/
theorem visited_comm {clock₁ clock₂ clock₃ clock₄ : Instant} (h : m.Separable)
    (ha : (r.visited now clock₁ m a).Separable) (hb : (r.visited now' clock₃ m b).Separable)
    (hne : a ≠ b) :
    (r.visited now' clock₂ (r.visited now clock₁ m a) b).Twin
      (r.visited now clock₄ (r.visited now' clock₃ m b) a) := by
  refine .of_parts fun name => ?_
  by_cases hna : name = a
  · subst hna
    exact part_visited_comm h ha hb hne
  by_cases hnb : name = b
  · subst hnb
    exact (part_visited_comm h hb ha (Ne.symm hne)).symm
  · rw [part_visited_ne ha hnb, part_visited_ne h hna, part_visited_ne hb hna,
      part_visited_ne h hnb]
    exact .refl _

end Reconciler

namespace Cluster

variable {t : Worker.Template} {c : Cluster}

/-- In a store that comes about, jobs do not get in each other's way. -/
theorem Sound.separable (h : Sound t c) : c.store.Separable where
  consistent := h.consistent_now
  lawful _ job found := h.lawful job (.of_store found)
  distinct name name' job job' found found' huid := by
    have hsame := h.unique (List.mem_cons_self ..) found found' huid
    rw [← h.consistent_now.named _ _ found, ← h.consistent_now.named _ _ found', hsame]

/-- An invocation makes all its calls, and each of them is answered. -/
theorem Run.account {s : StoreScript (Except ReconcileError Requeue)} {i : Nat} {inv : Invocation}
    (h : Reachable t c) (hinv : c.invocations[i]? = some inv) (hrest : inv.rest = some s)
    (clock : Instant) :
    ∃ c', Reachable t c' ∧ c'.store = (s.account clock c.store).store := by
  induction s generalizing c inv with
  | done result => exact ⟨c, h, rfl⟩
  | ask call resume ih =>
    have hi : i < c.invocations.length := (List.getElem?_eq_some_iff.mp hinv).1
    have hstep : c.next t (.turn i clock .answered) =
        some { c.become (c.store.answer clock call).2 with
          invocations := c.invocations.set i (inv.hear call (c.store.answer clock call).1
            (resume (c.store.answer clock call).1)) } := by
      rw [Cluster.next, hinv]
      dsimp only
      rw [hrest]
      rfl
    exact ih _ (h.next trivial hstep) (List.getElem?_set_self hi) rfl

/-- What an invocation leaves behind that has the store to itself comes about. -/
theorem Run.attend (h : Reachable t c) (name : String) (now clock : Instant) (pacing : Pacing) :
    ∃ c', Reachable t c' ∧
      c'.store = (Reconciler.attend ⟨t, pacing⟩ name now clock c.store).store := by
  have hstep : c.next t (.start name now pacing) =
      some { c with invocations := c.invocations ++ [.begin t name now pacing] } := rfl
  exact Run.account (h.next trivial hstep) List.getElem?_concat_length rfl clock

theorem Run.separable_attend (h : Reachable t c) (name : String) (now clock : Instant)
    (pacing : Pacing) :
    (Reconciler.attend ⟨t, pacing⟩ name now clock c.store).store.Separable := by
  obtain ⟨c', hreach, hstore⟩ := h.attend name now clock pacing
  rw [← hstore]
  exact hreach.sound.separable

/-- **Jobs do not interfere.** An invocation for one job leaves the record of another one and the
workers that it owns as they are. Two invocations for different jobs answer the same, and leave
the same store behind but for the times at which workers were created, whichever comes first. -/
theorem attend_independent (h : Reachable t c) {a b : String} (hne : a ≠ b) (pacing : Pacing)
    (now now' clock₁ clock₂ clock₃ clock₄ : Instant) :
    let r : Reconciler := ⟨t, pacing⟩
    let first := r.attend a now clock₁ c.store
    let second := r.attend b now' clock₂ first.store
    let first' := r.attend b now' clock₃ c.store
    let second' := r.attend a now clock₄ first'.store
    (first.store.jobs.get? b = c.store.jobs.get? b ∧ ∀ n worker, worker.owner.name = b →
      (first.store.workers.get? n = some worker ↔ c.store.workers.get? n = some worker)) ∧
    first.result = second'.result ∧ second.result = first'.result ∧
    second.store.Twin second'.store := by
  intro r first second first' second'
  have hc := h.sound.separable
  have hfirst : first.store.Separable := h.separable_attend a now clock₁ pacing
  have hfirst' : first'.store.Separable := h.separable_attend b now' clock₃ pacing
  have hstore : first.store = r.visited now clock₁ c.store a :=
    Reconciler.attend_store_eq hc.consistent
  have hstore' : first'.store = r.visited now' clock₃ c.store b :=
    Reconciler.attend_store_eq hc.consistent
  have hspared : first.store.part b = c.store.part b := by
    rw [hstore]
    exact Reconciler.part_visited_ne hc (Ne.symm hne)
  have hspared' : first'.store.part a = c.store.part a := by
    rw [hstore']
    exact Reconciler.part_visited_ne hc hne
  refine ⟨MemoryStore.part_eq_iff.mp hspared,
    (Reconciler.result_of_part_eq hc hfirst' hspared').symm,
    Reconciler.result_of_part_eq hc hfirst hspared, ?_⟩
  have hend : second.store = r.visited now' clock₂ first.store b :=
    Reconciler.attend_store_eq hfirst.consistent
  have hend' : second'.store = r.visited now clock₄ first'.store a :=
    Reconciler.attend_store_eq hfirst'.consistent
  rw [hend, hend', hstore, hstore']
  exact Reconciler.visited_comm hc (hstore ▸ hfirst) (hstore' ▸ hfirst') hne

/-- Two jobs wait for their workers, and one has the name of the worker of the other. -/
def namesakes : List Event :=
  [.submit bell (.ofNat 1) (.ofSecond 0),
    .submit { bell with name := "bell-worker-0" } (.ofNat 2) (.ofSecond 0),
    .start "bell" (.ofSecond 1) {}] ++ turns 0 2 ++
    [.start "bell-worker-0" (.ofSecond 1) {}] ++ turns 1 2

theorem attend_independent_namesakes : ∃ c, Reachable {} c ∧ "bell" ≠ "bell-worker-0" ∧
    c.store.jobs.keys = ["bell", "bell-worker-0"] ∧
    ∀ now now' clock clock' : Instant,
      (Reconciler.attend {} "bell-worker-0" now' clock'
        (Reconciler.attend {} "bell" now clock c.store).store).store.Twin
      (Reconciler.attend {} "bell" now clock'
        (Reconciler.attend {} "bell-worker-0" now' clock c.store).store).store := by
  have hreach : Reachable {} (outcome {} namesakes) := .outcome fun _ _ => trivial
  have hne : "bell" ≠ "bell-worker-0" := by decide
  refine ⟨_, hreach, hne, by decide +kernel, fun now now' clock clock' => ?_⟩
  exact (attend_independent hreach hne {} now now' clock clock' clock clock').2.2.2

end Cluster

end JobOperator
