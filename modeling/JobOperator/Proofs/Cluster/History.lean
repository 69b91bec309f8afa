import JobOperator.Proofs.Cluster.Records
import Mathlib.Data.List.Destutter

/-!
# The history of a job

A status is written only over the record that it was made from, so the records of one
incarnation of a job form a line, however many invocations there are.

* `Cluster.history`: the records of an incarnation, in the order in which they were
  stored.
* `Cluster.Successor`: the later of two records is the outcome of a step that an
  invocation has taken of the earlier one.
* `Cluster.Run.latest`: the invariant: the version of the stored record is above that of
  all others. Hence who writes has read the very record that it writes over
  (`Cluster.Run.read_eq`).
* `Cluster.history_linear`: the history begins with the submission, and every record of
  it is the successor of the one before.

Versions are machine numbers. If one came round to where it was, a record that was read
long ago would pass for the present one, so all this is about incarnations whose version
has not overflowed (`Cluster.Unwrapped`); a run of fewer than 2^64 events does not get
there (`Cluster.Run.unwrapped`).
-/

namespace JobOperator

/-- The record of an incarnation of a job, if it is stored. -/
def MemoryStore.incarnation? (m : MemoryStore) (uid : Uid) : Option Job :=
  m.jobs.values.find? (·.uid = uid)

/-- The way from an earlier record of an incarnation to any later one. -/
structure Job.Precedes (job job' : Job) : Prop where
  version : job.resourceVersion < job'.resourceVersion
  /-- nothing follows upon a finished job -/
  alive : job.status.phase.terminal = false
  retries : job.status.retries ≤ job'.status.retries
  start : ∀ time, job.status.startTime = some time → job'.status.startTime = some time

theorem Job.Precedes.trans {a b c : Job} (h : a.Precedes b) (h' : b.Precedes c) :
    a.Precedes c where
  version := UInt64.lt_trans h.version h'.version
  alive := h.alive
  retries := UInt32.le_trans h.retries h'.retries
  start := fun time ht => h'.start time (h.start time ht)

instance : Trans Job.Precedes Job.Precedes Job.Precedes := ⟨Job.Precedes.trans⟩

namespace Cluster

/-- The records of an incarnation in all stores there have been, the last one first. -/
def records (c : Cluster) (uid : Uid) : List Job := c.stores.filterMap (·.incarnation? uid)

/-- The records of an incarnation in the order in which they were stored, each one once. -/
def history (c : Cluster) (uid : Uid) : List Job := (c.records uid).reverse.destutter (· ≠ ·)

/-- The second record was written over the first one. -/
structure Successor (c : Cluster) (job job' : Job) : Prop where
  identity : job.SameIdentity job'
  version : job'.resourceVersion = job.resourceVersion + 1
  phase : job.status.phase.Edge job'.status.phase
  precedes : job.Precedes job'
  /-- an invocation has read the first record, has taken a step upon what it has seen, and
  has made the call that writes the outcome -/
  step : ∃ inv ∈ c.invocations, ∃ seen reply, inv.job = job.name ∧
    Reconciler.HasRead inv.job inv.log job ∧ job.Sees inv.now inv.log seen ∧
    job'.status = (job.step seen inv.now inv.pacing).status ∧
    ⟨.updateStatus { job with status := job'.status }, reply⟩ ∈ inv.log

/-- The version of an incarnation has not overflowed. Versions count from one, so zero is what
an overflow would have left. -/
def Unwrapped (c : Cluster) (uid : Uid) : Prop :=
  ∀ job, c.Recorded job → job.uid = uid → job.resourceVersion ≠ 0

variable {t : Worker.Template} {allowed : Event → Prop} {c c' : Cluster} {e : Event} {uid : Uid}
  {job job' : Job}

/-! ## The records of an incarnation -/

theorem Sound.incarnation?_eq_some (h : Sound t c) {s : MemoryStore} (hs : s ∈ c.stores) :
    s.incarnation? uid = some job ↔ (∃ name, s.jobs.get? name = some job) ∧ job.uid = uid := by
  have hfound : ∀ {found : Job}, s.incarnation? uid = some found →
      (∃ name, s.jobs.get? name = some found) ∧ found.uid = uid := by
    intro found hfind
    obtain ⟨⟨name, _⟩, hentry, rfl⟩ := List.mem_map.mp (List.mem_of_find?_eq_some hfind)
    exact ⟨⟨name, Table.mem_toList_iff.mp hentry⟩, by simpa using List.find?_some hfind⟩
  refine ⟨hfound, ?_⟩
  rintro ⟨⟨name, hjob⟩, huid⟩
  cases hfind : s.incarnation? uid with
  | none =>
    have hmem : job ∈ s.jobs.values := List.mem_map.mpr ⟨_, Table.mem_toList_iff.mpr hjob, rfl⟩
    simpa [huid] using List.find?_eq_none.mp hfind job hmem
  | some other =>
    obtain ⟨⟨name', hother⟩, huid'⟩ := hfound hfind
    rw [h.unique hs hjob hother (huid'.trans huid.symm)]

/-- The records of an incarnation are the jobs that were ever stored with its uid. -/
theorem Sound.mem_records (h : Sound t c) :
    job ∈ c.records uid ↔ c.Recorded job ∧ job.uid = uid := by
  constructor
  · intro hmem
    obtain ⟨s, hs, hinc⟩ := List.mem_filterMap.mp hmem
    obtain ⟨⟨name, hjob⟩, huid⟩ := (h.incarnation?_eq_some hs).mp hinc
    exact ⟨⟨s, hs, name, hjob⟩, huid⟩
  · rintro ⟨⟨s, hs, name, hjob⟩, huid⟩
    exact List.mem_filterMap.mpr ⟨s, hs, (h.incarnation?_eq_some hs).mpr ⟨⟨name, hjob⟩, huid⟩⟩

/-- A record that is stored now comes first. -/
theorem Sound.records_of_store (h : Sound t c) {name : String}
    (hjob : c.store.jobs.get? name = some job) :
    ∃ older, c.records job.uid = job :: older := by
  have hinc := (h.incarnation?_eq_some (List.mem_cons_self ..)).mpr ⟨⟨name, hjob⟩, rfl⟩
  refine ⟨c.past.filterMap (·.incarnation? job.uid), ?_⟩
  unfold records stores
  exact List.filterMap_cons_some hinc

/-! ## Versions -/

/-- The version of the stored record of an incarnation is above that of all others. -/
def Latest (c : Cluster) (uid : Uid) : Prop :=
  ∀ name job, c.store.jobs.get? name = some job → job.uid = uid →
    ∀ old, c.Recorded old → old.uid = uid → old = job ∨ old.resourceVersion < job.resourceVersion

/-- A version is counted up, unless it overflows. -/
theorem lt_succ_version {v : UInt64} (h : v + 1 ≠ 0) : v < v + 1 := by
  have hne : (v + 1).toNat ≠ 0 := fun hzero => h (UInt64.toNat_inj.mp hzero)
  have hlt := v.toNat_lt
  rw [UInt64.lt_iff_toNat_lt]
  rw [UInt64.toNat_add] at hne ⊢
  simp only [UInt64.reduceToNat] at hne ⊢
  omega

/-- What has not overflowed had not done so before. -/
theorem Unwrapped.before (hu : c'.Unwrapped uid) (hstep : c.next t e = some c') :
    c.Unwrapped uid :=
  fun job ⟨s, hs, hjob⟩ huid => hu job ⟨s, next_stores hstep hs, hjob⟩ huid

/-- The version that a writer puts over another one is above it. -/
theorem Unwrapped.lt (hu : c'.Unwrapped uid) {name : String}
    (hjob' : c'.store.jobs.get? name = some job') (huid : job'.uid = uid)
    (hversion : job'.resourceVersion = job.resourceVersion + 1) :
    job.resourceVersion < job'.resourceVersion := by
  have hne := hu job' (.of_store hjob') huid
  rw [hversion] at hne ⊢
  exact lt_succ_version hne

/-- **The stored record is the last one.** -/
theorem Run.latest (h : Run t allowed c) (hu : c.Unwrapped uid) : c.Latest uid := by
  induction h with
  | start => intro name job hjob; cases hjob
  | @next c c' e before _ step ih =>
    have hs := before.sound
    have ih := ih (hu.before step)
    -- all that is recorded with the uid was there before, or is what is stored now
    have hold : ∀ name job', c'.store.jobs.get? name = some job' → job'.uid = uid →
        ∀ old, c'.Recorded old → old.uid = uid → c.Recorded old ∨ old = job' := by
      intro name job' hjob' huid old hrec hold
      exact (recorded_next step hrec).imp_right fun ⟨name', hstored⟩ =>
        (hs.next step).unique (List.mem_cons_self ..) hjob' hstored (hold.trans huid.symm)
    intro name job' hjob' huid old hrec holduid
    rcases hold name job' hjob' huid old hrec holduid with hrec | rfl
    · cases hs.arrives step hjob' with
      | kept found => exact ih name job' found huid old hrec holduid
      | born _ _ fresh _ _ outcome =>
        refine absurd (hs.issued old hrec) ?_
        rw [holduid, ← huid, outcome]
        exact fresh
      | written _ _ found write _ _ =>
        have hw := write.sameIdentity.uid.symm.trans huid
        have hlt := hu.lt hjob' huid write.version_succ
        rcases ih name _ found hw old hrec holduid with rfl | hless
        · exact .inr hlt
        · exact .inr (UInt64.lt_trans hless hlt)
    · exact .inl rfl

/-- Who writes a status has read the very record that it writes over. -/
theorem Run.read_eq (h : Run t allowed c) (hu : c.Unwrapped uid) {name : String}
    (found : c.store.jobs.get? name = some job) (huid : job.uid = uid) {inv : Invocation}
    {read : Job} {seen : Observation} (w : Write t c inv read seen job job') : read = job := by
  rcases h.latest hu name job found huid read w.recorded (w.uid.symm.trans huid) with heq | hlt
  · exact heq
  · rw [w.version] at hlt
    exact absurd hlt (UInt64.lt_irrefl _)

/-- A record that was there before, and is stored now, has been stored all the time. -/
theorem Run.stored_before (h : Run t allowed c) (hu : c'.Unwrapped job.uid)
    (hstep : c.next t e = some c') (hrec : c.Recorded job) {name : String}
    (hjob : c'.store.jobs.get? name = some job) : c.store.jobs.get? name = some job := by
  cases h.sound.arrives hstep hjob with
  | kept found => exact found
  | born _ _ fresh _ _ outcome =>
    refine absurd (h.sound.issued job hrec) ?_
    rw [outcome]
    exact fresh
  | @written _ _ _ _ _ old _ _ _ _ _ found write =>
    -- the version that is written is above all those before
    have hlt := hu.lt hjob rfl write.version_succ
    rcases h.latest (hu.before hstep) name old found write.sameIdentity.uid.symm job hrec rfl with
      rfl | hbelow
    · exact absurd hlt (UInt64.lt_irrefl _)
    · exact absurd (UInt64.lt_trans hlt hbelow) (UInt64.lt_irrefl _)

/-- In a run that is not too long, versions are at most the number of events. -/
theorem Run.version_lt (h : Run t allowed c) (hlen : c.stores.length ≤ UInt64.size)
    (hrec : c.Recorded job) :
    0 < job.resourceVersion.toNat ∧ job.resourceVersion.toNat < c.stores.length := by
  induction h generalizing job with
  | start => exact absurd hrec (not_recorded_start job)
  | @next c c' e before _ step ih =>
    have hle : c.stores.length ≤ c'.stores.length := by
      rcases next_cases step with ⟨hstores, -⟩ | ⟨hstores, -⟩ <;> simp [hstores]
    have hkept : ∀ {job : Job}, c.Recorded job →
        0 < job.resourceVersion.toNat ∧ job.resourceVersion.toNat < c'.stores.length := by
      intro job hold
      obtain ⟨hpos, hlt⟩ := ih (hle.trans hlen) hold
      exact ⟨hpos, hlt.trans_le hle⟩
    rcases recorded_next step hrec with hold | ⟨name, hjob⟩
    · exact hkept hold
    cases before.sound.arrives step hjob with
    | kept found => exact hkept (.of_store found)
    | born _ hstores _ _ _ outcome =>
      rw [outcome, hstores]
      simp [stores]
    | written _ hstores found write _ _ =>
      obtain ⟨-, hlt⟩ := ih (hle.trans hlen) (.of_store found)
      rw [hstores, List.length_cons] at hlen ⊢
      rw [write.version_succ, UInt64.toNat_add]
      unfold UInt64.size at hlen
      simp only [UInt64.reduceToNat]
      omega

/-- A run of fewer than 2^64 events does not make a version overflow. -/
theorem Run.unwrapped (h : Run t allowed c) (hlen : c.stores.length ≤ UInt64.size) :
    c.Unwrapped uid := by
  intro job hrec _ hzero
  have hpos := (h.version_lt hlen hrec).1
  rw [hzero] at hpos
  exact absurd hpos (by decide)

/-! ## Successors -/

/-- What has been written stays written. -/
theorem Successor.mono (hstep : c.next t e = some c') (h : Successor c job job') :
    Successor c' job job' := by
  obtain ⟨inv, hinv, seen, reply, hname, hread, hsees, hstatus, hlog⟩ := h.step
  obtain ⟨i, hi⟩ := List.mem_iff_getElem?.mp hinv
  obtain ⟨inv', hinv', hcont⟩ := next_invocations hstep hi
  obtain ⟨more, hmore⟩ := hcont.log
  refine ⟨h.identity, h.version, h.phase, h.precedes,
    inv', List.mem_of_getElem? hinv', seen, reply, ?_⟩
  rw [hcont.job, hcont.now, hcont.pacing, ← hmore]
  exact ⟨hname, hread.append more, hsees.mono (List.subset_append_left ..), hstatus,
    List.mem_append_left _ hlog⟩

/-- What a writer puts over a record is its successor. -/
theorem Run.successor (h : Run t allowed c) (hu : c'.Unwrapped job'.uid)
    (hstep : c.next t e = some c') {name : String} (found : c.store.jobs.get? name = some job)
    (hjob' : c'.store.jobs.get? name = some job') {inv : Invocation} {read : Job}
    {seen : Observation} (write : Write t c inv read seen job job') {i : Nat}
    {reply : Except StoreError Job} {rest : StoreScript (Except ReconcileError Requeue)}
    (after : c'.invocations[i]? = some (inv.hear (.updateStatus
      { read with status := (read.step seen inv.now inv.pacing).status }) reply rest)) :
    Successor c' job job' := by
  -- the version tells that nothing was written since the writer has read
  obtain rfl := h.read_eq (hu.before hstep) found write.sameIdentity.uid.symm write
  have hlawful := h.sound.lawful read write.recorded
  have ht := read.step_transition seen inv.now inv.pacing
  rw [← write.status] at ht
  refine ⟨write.sameIdentity, write.version_succ, ht.edge, ⟨hu.lt hjob' rfl write.version_succ,
    write.alive, ht.retries_le hlawful, fun _ => ht.startTime⟩, _, List.mem_of_getElem? after, seen,
    reply, write.named, write.first.append _, write.sees.mono (List.subset_append_left ..),
    write.status, ?_⟩
  rw [write.status]
  exact List.mem_append_right _ (List.mem_singleton.mpr rfl)

/-- What an event adds to the records of an incarnation: nothing, its submission, or what
follows upon its last record. -/
theorem Run.records_next (h : Run t allowed c) (hu : c'.Unwrapped uid)
    (hstep : c.next t e = some c') :
    c'.records uid = c.records uid ∨ ∃ job', c'.records uid = job' :: c.records uid ∧
      ((c.records uid = [] ∧ job'.resourceVersion = 1 ∧ job'.status = {}) ∨
        ∃ job older, c.records uid = job :: older ∧ (job' = job ∨ Successor c' job job')) := by
  have hs := h.sound
  rcases next_cases hstep with ⟨hstores, -⟩ | ⟨hstores, -⟩
  · left
    unfold records
    rw [hstores]
  unfold records
  rw [hstores]
  cases hinc : c'.store.incarnation? uid with
  | none => exact .inl (List.filterMap_cons_none hinc)
  | some job' =>
    refine .inr ⟨job', List.filterMap_cons_some hinc, ?_⟩
    obtain ⟨⟨name, hjob'⟩, rfl⟩ :=
      ((hs.next hstep).incarnation?_eq_some (List.mem_cons_self ..)).mp hinc
    cases hs.arrives hstep hjob' with
    | kept found =>
      obtain ⟨older, holder⟩ := hs.records_of_store found
      exact .inr ⟨job', older, holder, .inl rfl⟩
    | born _ _ fresh _ _ outcome =>
      refine .inl ⟨List.eq_nil_iff_forall_not_mem.mpr fun old hold => ?_,
        by rw [outcome], by rw [outcome]; rfl⟩
      obtain ⟨hrec, holduid⟩ := hs.mem_records.mp hold
      refine absurd (hs.issued old hrec) ?_
      rw [holduid, outcome]
      exact fresh
    | written _ _ found write after _ =>
      obtain ⟨older, holder⟩ := hs.records_of_store found
      rw [← write.sameIdentity.uid] at holder
      exact .inr ⟨_, older, holder, .inr (h.successor hu hstep found hjob' write after)⟩

/-- From one store to the next, the record of an incarnation stays or is followed by its
successor. -/
theorem Run.isChain_records (h : Run t allowed c) (hu : c.Unwrapped uid) :
    (c.records uid).IsChain (fun job' job => job = job' ∨ Successor c job job') ∧
      ∀ job, (c.records uid).getLast? = some job → job.resourceVersion = 1 ∧ job.status = {} := by
  induction h with
  | start =>
    have hnil : records {} uid = [] := List.eq_nil_iff_forall_not_mem.mpr fun job hjob =>
      not_recorded_start job ((Sound.start (t := t)).mem_records.mp hjob).1
    rw [hnil]
    exact ⟨.nil, fun job hjob => by simp at hjob⟩
  | @next c c' e before _ step ih =>
    obtain ⟨hchain, hfirst⟩ := ih (hu.before step)
    have hchain := hchain.imp fun _ _ hs => hs.imp_right (Successor.mono step)
    rcases before.records_next hu step with heq | ⟨job', heq, hcases⟩
    · rw [heq]
      exact ⟨hchain, hfirst⟩
    rw [heq]
    rcases hcases with ⟨hnil, hversion, hstatus⟩ | ⟨job, older, hcons, hsucc⟩
    · rw [hnil]
      refine ⟨.singleton _, fun job hjob => ?_⟩
      obtain rfl := Option.some.inj hjob
      exact ⟨hversion, hstatus⟩
    · rw [hcons] at hchain hfirst ⊢
      refine ⟨.cons_cons (hsucc.imp_left Eq.symm) hchain, fun first hlast => hfirst first ?_⟩
      rwa [List.getLast?_cons_cons] at hlast

/-! ## The history -/

section Repetitions

variable {α : Type} [DecidableEq α] {R : α → α → Prop} {a : α} {l : List α}

theorem head?_destutter' (a : α) (l : List α) : (l.destutter' (· ≠ ·) a).head? = some a := by
  induction l generalizing a with
  | nil => rfl
  | cons b l ih =>
    rw [List.destutter'_cons]
    split
    · rfl
    · exact ih a

theorem head?_destutter (l : List α) : (l.destutter (· ≠ ·)).head? = l.head? := by
  cases l with
  | nil => rfl
  | cons a l => exact head?_destutter' a l

theorem mem_destutter'_iff {x : α} : x ∈ l.destutter' (· ≠ ·) a ↔ x ∈ a :: l := by
  induction l generalizing a with
  | nil => simp
  | cons b l ih =>
    rw [List.destutter'_cons]
    split
    · rw [List.mem_cons, ih, List.mem_cons (l := b :: l)]
    · next heq =>
      obtain rfl := of_not_not heq
      rw [ih]
      simp

theorem mem_destutter_iff {x : α} : x ∈ l.destutter (· ≠ ·) ↔ x ∈ l := by
  cases l with
  | nil => rfl
  | cons a l => exact mem_destutter'_iff

/-- Once repetitions are left out, what is no repetition remains. -/
theorem isChain_destutter' (h : (a :: l).IsChain fun x y => x = y ∨ R x y) :
    (l.destutter' (· ≠ ·) a).IsChain R := by
  induction l generalizing a with
  | nil => exact .singleton a
  | cons b l ih =>
    obtain ⟨hab, hl⟩ := List.isChain_cons_cons.mp h
    rw [List.destutter'_cons]
    split
    · next hne =>
      refine List.isChain_cons.mpr ⟨fun y hy => ?_, ih hl⟩
      rw [head?_destutter'] at hy
      obtain rfl := Option.some.inj hy
      exact hab.resolve_left hne
    · next heq =>
      obtain rfl := of_not_not heq
      exact ih hl

theorem isChain_destutter (h : l.IsChain fun x y => x = y ∨ R x y) :
    (l.destutter (· ≠ ·)).IsChain R := by
  cases l with
  | nil => exact .nil
  | cons a l => exact isChain_destutter' h

end Repetitions

/-- The history of an incarnation has all its records. -/
theorem Run.mem_history (h : Run t allowed c) :
    job ∈ c.history uid ↔ c.Recorded job ∧ job.uid = uid := by
  unfold history
  rw [mem_destutter_iff, List.mem_reverse]
  exact h.sound.mem_records

/-- **The history of a job is linear.** It has all records of the incarnation. It begins with
the submission; every later record is written over the one before it, at the next version, and
is the outcome of a step that an invocation has taken of just this one; and on the way from any
record to a later one nothing is done to a finished job, no retry is taken back and the start
is kept. -/
theorem history_linear (h : Reachable t c) (hu : c.Unwrapped uid) :
    (∀ job, job ∈ c.history uid ↔ c.Recorded job ∧ job.uid = uid) ∧
      (∀ job, (c.history uid).head? = some job → job.resourceVersion = 1 ∧ job.status = {}) ∧
      (c.history uid).IsChain (Successor c) ∧ (c.history uid).Pairwise Job.Precedes := by
  obtain ⟨hchain, hfirst⟩ := h.isChain_records hu
  have hlinear : (c.history uid).IsChain (Successor c) :=
    isChain_destutter (List.isChain_reverse.mpr hchain)
  refine ⟨fun _ => h.mem_history, fun job hjob => hfirst job ?_, hlinear,
    (hlinear.imp fun _ _ hs => hs.precedes).pairwise⟩
  unfold history at hjob
  rw [head?_destutter, List.head?_reverse] at hjob
  exact hjob

/-- Two invocations race for the start of a job. The third one asks for its worker, and is not
told that its write was made; the fifth one is told what was stored before the fourth wrote. -/
def busy : List Event :=
  [.submit bell (.ofNat 1) (.ofSecond 0), .start "bell" (.ofSecond 1) {},
    .start "bell" (.ofSecond 2) {}] ++ turns 0 1 ++ turns 1 1 ++ turns 0 1 ++ turns 1 1 ++
    [.start "bell" (.ofSecond 3) {}] ++ turns 2 3 ++
    [.turn 2 (.ofSecond 3) (.unheard (.transient "timeout")), .start "bell" (.ofSecond 4) {}] ++
    turns 3 4 ++ [.report "bell-worker-0" .succeeded, .start "bell" (.ofSecond 5) {},
      .turn 4 (.ofSecond 5) (.stale 2)] ++ turns 4 3 ++
    [.start "bell" (.ofSecond 6) {}] ++ turns 5 3

theorem history_linear_busy : ∃ c, Reachable {} c ∧ c.Unwrapped (.ofNat 1) ∧
    (c.history (.ofNat 1)).map (fun job => (job.resourceVersion, job.status.phase)) =
      [(1, .unstarted), (2, .pending), (3, .pending), (4, .running), (5, .completed)] ∧
    (c.history (.ofNat 1)).IsChain (Successor c) := by
  have hreach : Reachable {} (outcome {} busy) := .outcome fun _ _ => trivial
  have hu : (outcome {} busy).Unwrapped (.ofNat 1) := hreach.unwrapped (by decide +kernel)
  exact ⟨_, hreach, hu, by decide +kernel, (history_linear hreach hu).2.2.1⟩

end Cluster

end JobOperator
