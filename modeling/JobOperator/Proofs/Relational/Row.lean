import JobOperator.Proofs.Relational.Document
import JobOperator.Proofs.Table
import JobOperator.Proofs.Time.Place
import JobOperator.Relational.Row

/-!
# Rows come back

* `Relational.JobRow.ofJob`, `Relational.WorkerRow.ofWorker`: the row of a record.
* `Relational.Stamp.ofInstant_toInstant`: a time that a column can hold is kept exactly.
* `Relational.unsigned32_signed32_iff`, `Relational.unsigned64_signed64_iff`: so is a number that
  fits. `Relational.signed32_unsigned32_iff`, `Relational.signed64_unsigned64_iff`: a number that
  was found in a column is put there again unless it is negative.
* `Relational.JobRow.toJob_ofJob_iff`: the row of a job is read back **as the job** exactly if its
  numbers fit, and its times are of whole microseconds. Of a worker only the time of its creation
  matters (`Relational.WorkerRow.toWorker_ofWorker`).
* `Relational.Keeps`: rows that keep a table, in any order. What can be asked of the one can be
  asked of the other (`Relational.Keeps.filter_found`, `Relational.Keeps.any`), and they change
  together (`Relational.Keeps.insert`, `Relational.Keeps.filter`).
-/

namespace JobOperator.Relational

/-! ## Times -/

/-- The times that a column can hold: from the Julian day zero to the end of the year 294276. -/
def Stamp.InRange (s : Stamp) : Prop :=
  -211813488000000000 ≤ s.micros ∧ s.micros < 9223371331200000000

instance (s : Stamp) : Decidable s.InRange := inferInstanceAs (Decidable (_ ∧ _))

/-- A time that is kept exactly: a whole number of microseconds that a column can hold. -/
def Held (t : Instant) : Prop := ∃ s : Stamp, s.InRange ∧ s.toInstant = t

/-- A time of whole microseconds, and not in a leap second. -/
structure Whole (t : Instant) : Prop where
  micros : t.nano % Stamp.nanosPerMicro = 0
  ordinary : t.inLeapSecond = false

/-- What comes out of a column is of whole microseconds. -/
theorem Stamp.whole_toInstant (s : Stamp) : Whole s.toInstant := by
  constructor
  · simp only [toInstant, Instant.ofNanos, nanosPerSecond, nanosPerMicro]
    omega
  · refine decide_eq_false (Nat.not_le.mpr ?_)
    simp only [toInstant, Instant.ofNanos, nanosPerSecond]
    omega

/-- **A time comes back.** -/
theorem Stamp.ofInstant_toInstant (s : Stamp) : ofInstant s.toInstant = s := by
  have hleap : s.toInstant.inLeapSecond = false := s.whole_toInstant.ordinary
  have hplace : s.toInstant.place = origin.second * nanosPerSecond + s.micros * nanosPerMicro :=
    Instant.place_ofNanos _
  have hsince : s.toInstant.since origin = s.micros * nanosPerMicro := by
    rw [Instant.since_eq rfl hleap]
    show s.toInstant.place - origin.place = _
    rw [hplace]
    show origin.second * nanosPerSecond + s.micros * nanosPerMicro -
      (origin.second * nanosPerSecond + 0) = _
    omega
  rw [ofInstant, hsince, Int.mul_tdiv_cancel _ (by decide)]

/-- **Times of whole microseconds come back**, and no others. -/
theorem Stamp.toInstant_ofInstant_iff {t : Instant} : (ofInstant t).toInstant = t ↔ Whole t := by
  constructor
  · intro h
    exact h ▸ whole_toInstant _
  · intro h
    -- the time is that of a stamp, and stamps come back
    have hnano : t.nano < nanosPerSecond := Nat.not_le.mp (of_decide_eq_false h.ordinary)
    have hmicros := h.micros
    obtain ⟨second, nano, _, _⟩ := t
    let s : Stamp := ⟨(second - origin.second) * 1000000 + (nano / nanosPerMicro : Nat)⟩
    have hs : (⟨second, nano, ‹_›, ‹_›⟩ : Instant) = s.toInstant := by
      simp only [s, toInstant, Instant.ofNanos, nanosPerSecond, nanosPerMicro, Instant.mk.injEq]
        at hnano hmicros ⊢
      constructor <;> omega
    rw [hs, ofInstant_toInstant]

theorem Held.whole {t : Instant} (h : Held t) : Whole t := by
  obtain ⟨s, -, rfl⟩ := h
  exact s.whole_toInstant

theorem Held.toInstant_ofInstant {t : Instant} (h : Held t) :
    (Stamp.ofInstant t).toInstant = t := by
  obtain ⟨s, -, rfl⟩ := h
  rw [Stamp.ofInstant_toInstant]

theorem Held.inRange {t : Instant} (h : Held t) : (Stamp.ofInstant t).InRange := by
  obtain ⟨s, hs, rfl⟩ := h
  rwa [Stamp.ofInstant_toInstant]

/-! ## Numbers -/

/-- The count in a column is not negative, and no greater than the column allows. -/
theorem toNat_unsigned32 (n : Int32) : ((unsigned32 n).toNat : Int) = max n.toInt 0 := by
  have hlt := n.toInt_lt
  have hsize : UInt32.size = 4294967296 := rfl
  rw [unsigned32, UInt32.toNat_ofNat_of_lt' (by omega)]
  omega

theorem toNat_unsigned64 (n : Int64) : ((unsigned64 n).toNat : Int) = max n.toInt 0 := by
  have hlt := n.toInt_lt
  have hsize : UInt64.size = 18446744073709551616 := rfl
  rw [unsigned64, UInt64.toNat_ofNat_of_lt' (by omega)]
  omega

theorem toInt_signed32 (n : UInt32) : (signed32 n).toInt = min n.toNat greatest32 := by
  have hlt : min n.toNat greatest32 < 2 ^ 31 := Nat.lt_succ_of_le (Nat.min_le_right ..)
  rw [signed32, Int32.toInt_ofNat_of_lt hlt]

/-- The number in the column of a version. -/
theorem toInt_signed64 (n : UInt64) : (signed64 n).toInt = min n.toNat greatest64 := by
  have hlt : min n.toNat greatest64 < 2 ^ 63 := Nat.lt_succ_of_le (Nat.min_le_right ..)
  rw [signed64, Int64.toInt_ofNat_of_lt hlt]

/-- A count comes back exactly if it fits. -/
theorem unsigned32_signed32_iff {n : UInt32} :
    unsigned32 (signed32 n) = n ↔ n.toNat ≤ greatest32 := by
  have hback := toNat_unsigned32 (signed32 n)
  rw [toInt_signed32] at hback
  rw [← UInt32.toNat_inj]
  omega

/-- A version comes back exactly if it fits. -/
theorem unsigned64_signed64_iff {n : UInt64} :
    unsigned64 (signed64 n) = n ↔ n.toNat ≤ greatest64 := by
  have hback := toNat_unsigned64 (signed64 n)
  rw [toInt_signed64] at hback
  rw [← UInt64.toNat_inj]
  omega

/-- The number in a column is written as it was read exactly if it is not negative. -/
theorem signed32_unsigned32_iff {n : Int32} : signed32 (unsigned32 n) = n ↔ 0 ≤ n.toInt := by
  have hlt := n.toInt_lt
  have hread := toNat_unsigned32 n
  have hgreatest : greatest32 = 2147483647 := rfl
  rw [← Int32.toInt_inj, toInt_signed32]
  omega

theorem signed64_unsigned64_iff {n : Int64} : signed64 (unsigned64 n) = n ↔ 0 ≤ n.toInt := by
  have hlt := n.toInt_lt
  have hread := toNat_unsigned64 n
  have hgreatest : greatest64 = 9223372036854775807 := rfl
  rw [← Int64.toInt_inj, toInt_signed64]
  omega

theorem signed64_inj {n k : UInt64} (hn : n.toNat ≤ greatest64) (hk : k.toNat ≤ greatest64) :
    signed64 n = signed64 k ↔ n = k := by
  constructor
  · intro h
    rw [← unsigned64_signed64_iff.mpr hn, h, unsigned64_signed64_iff.mpr hk]
  · rintro rfl
    rfl

/-- A version is counted up in its column as it is in memory, if the next one fits. -/
theorem signed64_succ {n : UInt64} (hn : n.toNat ≤ greatest64) (h : (n + 1).toNat ≤ greatest64) :
    signed64 n ≠ Int64.maxValue ∧ signed64 n + 1 = signed64 (n + 1) := by
  have hone : (1 : UInt64).toNat = 1 := rfl
  have hgreatest : greatest64 = 9223372036854775807 := rfl
  have hsucc : (n + 1).toNat = n.toNat + 1 := by
    rw [UInt64.toNat_add, hone]
    omega
  constructor
  · intro heq
    have hmax : Int64.maxValue.toInt = 9223372036854775807 := rfl
    have htoInt := toInt_signed64 n
    rw [heq, hmax] at htoInt
    omega
  · rw [hsucc] at h
    rw [signed64, signed64, Nat.min_eq_left hn, hsucc, Nat.min_eq_left h, Int64.ofNat_add]
    rfl

/-! ## Records -/

/-- The row of a job. -/
def JobRow.ofJob (job : Job) : JobRow where
  name := job.name
  uid := job.uid
  resourceVersion := signed64 job.resourceVersion
  createdAt := .ofInstant job.createdAt
  spec := job.spec.toJson.kept
  status := .ofStatus job.status

/-- The row of a worker. -/
def WorkerRow.ofWorker (worker : Worker) : WorkerRow where
  name := worker.name
  ownerName := worker.owner.name
  ownerUid := worker.owner.uid
  spec := worker.spec.toJson.kept
  phase := worker.phase.word
  createdAt := .ofInstant worker.createdAt

/-- The columns of a status keep it as it is. -/
structure StatusHeld (s : Job.Status) : Prop where
  retries : s.retries.toNat ≤ greatest32
  startTime : ∀ t, s.startTime = some t → Held t
  completionTime : ∀ t, s.completionTime = some t → Held t

/-- A row keeps the job as it is. -/
structure JobHeld (job : Job) : Prop where
  version : job.resourceVersion.toNat ≤ greatest64
  createdAt : Held job.createdAt
  status : StatusHeld job.status

/-- A row keeps so much of the job that it can be read back: numbers that fit, and times of whole
microseconds. -/
structure Restorable (job : Job) : Prop where
  version : job.resourceVersion.toNat ≤ greatest64
  retries : job.status.retries.toNat ≤ greatest32
  createdAt : Whole job.createdAt
  startTime : ∀ t, job.status.startTime = some t → Whole t
  completionTime : ∀ t, job.status.completionTime = some t → Whole t

theorem JobHeld.restorable {job : Job} (h : JobHeld job) : Restorable job where
  version := h.version
  retries := h.status.retries
  createdAt := h.createdAt.whole
  startTime := fun t ht => (h.status.startTime t ht).whole
  completionTime := fun t ht => (h.status.completionTime t ht).whole

theorem map_toInstant_ofInstant_iff {t : Option Instant} :
    (t.map Stamp.ofInstant).map (·.toInstant) = t ↔ ∀ s, t = some s → Whole s := by
  cases t with
  | none => exact ⟨fun _ => nofun, fun _ => rfl⟩
  | some s =>
    simp only [Option.map_some, Option.some.injEq, Stamp.toInstant_ofInstant_iff, forall_eq']

theorem JobRow.readSpec_ofJob (job : Job) : (ofJob job).readSpec = .ok job.spec := by
  rw [readSpec, Relational.readSpec, ofJob, Job.Spec.ofJson_toJson Json.preserves_kept]
  rfl

theorem WorkerRow.readSpec_ofWorker (worker : Worker) :
    (ofWorker worker).readSpec = .ok worker.spec := by
  rw [readSpec, Relational.readSpec, ofWorker, Worker.Spec.ofJson_toJson Json.preserves_kept]
  rfl

/-- What a row is read as, if its spec and its phase can be read. -/
theorem JobRow.toJob_eq {row : JobRow} {spec : Job.Spec} {phase : Job.Phase}
    (hspec : row.readSpec = .ok spec) (hphase : Job.Phase.ofWord? row.status.phase = some phase) :
    row.toJob = .ok {
      name := row.name, uid := row.uid, resourceVersion := unsigned64 row.resourceVersion
      createdAt := row.createdAt.toInstant, spec
      status := {
        phase, retries := unsigned32 row.status.retries, workerRef := row.status.workerRef
        startTime := row.status.startTime.map (·.toInstant)
        completionTime := row.status.completionTime.map (·.toInstant)
        errorMessage := row.status.errorMessage } } := by
  rw [toJob, hspec]
  dsimp only [bind, Except.bind]
  rw [hphase]
  rfl

/-- **The row of a job is read back as the job** exactly if its numbers fit, and its times are of
whole microseconds. -/
theorem JobRow.toJob_ofJob_iff {job : Job} : (ofJob job).toJob = .ok job ↔ Restorable job := by
  rw [toJob_eq (readSpec_ofJob job) (Job.Phase.ofWord?_word _), Except.ok.injEq]
  obtain ⟨name, uid, version, createdAt, spec, phase, retries, workerRef, startTime, completionTime,
    errorMessage⟩ := job
  simp only [ofJob, StatusColumns.ofStatus, Job.mk.injEq, Job.Status.mk.injEq, true_and, and_true,
    unsigned64_signed64_iff, unsigned32_signed32_iff, Stamp.toInstant_ofInstant_iff,
    map_toInstant_ofInstant_iff]
  exact ⟨fun ⟨hversion, hcreated, hretries, hstart, hcompletion⟩ =>
      ⟨hversion, hretries, hcreated, hstart, hcompletion⟩,
    fun h => ⟨h.version, h.createdAt, h.retries, h.startTime, h.completionTime⟩⟩

theorem JobRow.toJob_ofJob {job : Job} (h : JobHeld job) : (ofJob job).toJob = .ok job :=
  toJob_ofJob_iff.mpr h.restorable

/-- **The row of a worker is read back as the worker.** -/
theorem WorkerRow.toWorker_ofWorker {worker : Worker} (h : Held worker.createdAt) :
    (ofWorker worker).toWorker = .ok worker := by
  have hphase : Worker.Phase.ofWord? (ofWorker worker).phase = some worker.phase :=
    Worker.Phase.ofWord?_word _
  rw [toWorker, readSpec_ofWorker]
  dsimp only [bind, Except.bind]
  rw [hphase]
  simp only [ofWorker, h.toInstant_ofInstant]
  rfl

/-! ## Tables -/

variable {α ρ : Type} {key : ρ → String} {write : α → ρ} {held : α → Prop} {rows : List ρ}
  {t : Table α} {n : String} {a : α}

/-- If nothing is taken out, everything is left. -/
theorem filter_not_eq_self {p : ρ → Bool} (h : rows.filter p = []) :
    rows.filter (! p ·) = rows := by
  refine List.filter_eq_self.mpr fun row hrow => ?_
  rw [Bool.not_eq_true', Bool.eq_false_iff]
  exact List.filter_eq_nil_iff.mp h row hrow

/-- If there is no row of a key, all rows are of other keys. -/
theorem filter_ne_eq_self (h : rows.filter (key · = n) = []) : rows.filter (key · ≠ n) = rows := by
  simp only [ne_eq, decide_not]
  exact filter_not_eq_self h

/-- If something can be read of every row, all rows pass. -/
theorem forM_map_eq_ok {ε β : Type} {read : ρ → Except ε β} {as : List α}
    (h : ∀ a, ∃ b, read (write a) = .ok b) :
    (as.map write).forM (fun row => discard (read row)) = .ok () := by
  induction as with
  | nil => rfl
  | cons a as ih =>
    obtain ⟨b, hb⟩ := h a
    rw [List.map_cons, List.forM_eq_forM, List.forM_cons, hb]
    exact ih

/-- If the row of every value is read as the value, the rows of all are read as all. -/
theorem mapM_map_eq_ok {ε : Type} {read : ρ → Except ε α} {as : List α}
    (h : ∀ a ∈ as, read (write a) = .ok a) : (as.map write).mapM read = .ok as := by
  induction as with
  | nil => rfl
  | cons a as ih =>
    obtain ⟨ha, hrest⟩ := List.forall_mem_cons.mp h
    rw [List.map_cons, List.mapM_cons, ha, ih hrest]
    rfl

/-- Rows that keep a table: a row for each value, which has the key of the value, and holds it. -/
structure Keeps (key : ρ → String) (write : α → ρ) (held : α → Prop) (rows : List ρ)
    (t : Table α) : Prop where
  perm : rows.Perm (t.values.map write)
  keyed : ∀ n a, t.get? n = some a → key (write a) = n
  held : ∀ n a, t.get? n = some a → held a

namespace Keeps

theorem empty : Keeps key write held [] ∅ where
  perm := .refl _
  keyed := fun n a h => by rw [Table.get?_empty] at h; cases h
  held := fun n a h => by rw [Table.get?_empty] at h; cases h

theorem mem_iff (h : Keeps key write held rows t) {row : ρ} :
    row ∈ rows ↔ ∃ n a, t.get? n = some a ∧ write a = row := by
  rw [h.perm.mem_iff, List.mem_map]
  constructor
  · rintro ⟨a, ha, rfl⟩
    obtain ⟨n, hn⟩ := Table.mem_values_iff.mp ha
    exact ⟨n, a, hn, rfl⟩
  · rintro ⟨n, a, hn, rfl⟩
    exact ⟨a, Table.mem_values_iff.mpr ⟨n, hn⟩, rfl⟩

/-- Rows that are listed in any order are those of values in some order. -/
theorem exists_values (h : Keeps key write held rows t) {listed : List ρ} {as : List α}
    (perm : listed.Perm (as.map write)) (stored : ∀ a ∈ as, a ∈ t.values) :
    ∃ values, as.Perm values ∧ values.map write = listed ∧ ∀ a ∈ values, held a := by
  obtain ⟨values, hperm, hrows⟩ := exists_map_of_perm perm.symm
  refine ⟨values, hperm, hrows, fun a ha => ?_⟩
  obtain ⟨n, hn⟩ := Table.mem_values_iff.mp (stored a (hperm.mem_iff.mpr ha))
  exact h.held n a hn

/-- The same is kept of the rows as of the table. -/
theorem filter (h : Keeps key write held rows t) {keep : String → α → Bool} {keepRow : ρ → Bool}
    (same : ∀ n a, t.get? n = some a → keep n a = keepRow (write a)) :
    Keeps key write held (rows.filter keepRow) (t.filter keep) where
  perm := by
    have hvalues : (t.filter keep).values = t.values.filter (keepRow ∘ write) :=
      Table.values_filter same
    rw [hvalues, ← List.filter_map]
    exact h.perm.filter _
  keyed := by
    intro n a ha
    rw [Table.get?_filter] at ha
    exact h.keyed n a (Option.filter_eq_some_iff.mp ha).1
  held := by
    intro n a ha
    rw [Table.get?_filter] at ha
    exact h.held n a (Option.filter_eq_some_iff.mp ha).1

/-- All rows but the one of a key. -/
theorem erase (h : Keeps key write held rows t) (n : String) :
    Keeps key write held (rows.filter (key · ≠ n)) (t.erase n) :=
  h.filter fun k a ha => by rw [h.keyed k a ha]

/-- There is no row of this key. -/
theorem filter_absent (h : Keeps key write held rows t) (absent : t.get? n = none) :
    rows.filter (key · = n) = [] := by
  refine List.filter_eq_nil_iff.mpr fun row hrow => ?_
  obtain ⟨k, a, ha, rfl⟩ := h.mem_iff.mp hrow
  rw [h.keyed k a ha, decide_eq_true_iff]
  rintro rfl
  cases absent.symm.trans ha

/-- There is one row of this key. -/
theorem filter_found (h : Keeps key write held rows t) (found : t.get? n = some a) :
    rows.filter (key · = n) = [write a] := by
  have hrest : Keeps key write held ((t.erase n).values.map write) (t.erase n) :=
    ⟨.refl _, (h.erase n).keyed, (h.erase n).held⟩
  have habsent : (t.erase n).get? n = none := by rw [Table.get?_erase, if_pos rfl]
  have hperm := (h.perm.trans ((Table.values_of_get? found).map write)).filter (key · = n)
  have hkey : decide (key (write a) = n) = true := decide_eq_true (h.keyed n a found)
  rw [List.map_cons, List.filter_cons, if_pos hkey, hrest.filter_absent habsent] at hperm
  exact List.perm_singleton.mp hperm

/-- Of the row of a key may be asked more. -/
theorem filter_found_and (h : Keeps key write held rows t) (found : t.get? n = some a)
    (also : ρ → Bool) :
    rows.filter (fun row => also row && key row = n) =
      if also (write a) then [write a] else [] := by
  rw [← List.filter_filter, h.filter_found found, List.filter_cons, List.filter_nil]

theorem filter_absent_and (h : Keeps key write held rows t) (absent : t.get? n = none)
    (also : ρ → Bool) : rows.filter (fun row => also row && key row = n) = [] := by
  rw [← List.filter_filter, h.filter_absent absent, List.filter_nil]

theorem any (h : Keeps key write held rows t) (n : String) :
    rows.any (key · = n) = t.contains n := by
  rw [Table.contains]
  cases found : t.get? n with
  | none =>
    refine List.any_eq_false.mpr fun row hrow => ?_
    exact List.filter_eq_nil_iff.mp (h.filter_absent found) row hrow
  | some a =>
    exact List.any_eq_true.mpr
      ⟨write a, h.mem_iff.mpr ⟨n, a, found, rfl⟩, decide_eq_true (h.keyed n a found)⟩

/-- A row is put in the place of the one of its key. -/
theorem insert (h : Keeps key write held rows t) (keyed : key (write a) = n) (ha : held a) :
    Keeps key write held (rows.filter (key · ≠ n) ++ [write a]) (t.insert n a) where
  perm := by
    refine List.perm_append_singleton _ _ |>.trans ?_
    exact ((h.erase n).perm.cons (write a)).trans ((t.values_insert n a).map write).symm
  keyed := by
    intro k b hb
    rw [Table.get?_insert] at hb
    split at hb
    · next hk =>
      obtain rfl := Option.some.inj hb
      exact keyed.trans hk
    · exact h.keyed k b hb
  held := by
    intro k b hb
    rw [Table.get?_insert] at hb
    split at hb
    · exact Option.some.inj hb ▸ ha
    · exact h.held k b hb

/-- A row is put in whose key is new. -/
theorem append (h : Keeps key write held rows t) (absent : t.get? n = none)
    (keyed : key (write a) = n) (ha : held a) :
    Keeps key write held (rows ++ [write a]) (t.insert n a) := by
  have hinsert := h.insert keyed ha
  rwa [filter_ne_eq_self (h.filter_absent absent)] at hinsert

end Keeps

end JobOperator.Relational
