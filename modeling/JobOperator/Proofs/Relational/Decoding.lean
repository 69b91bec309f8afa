import JobOperator.Proofs.Relational.Server

/-!
# What is read of a row

A column may hold more than a record: a phase can be any word, and a number can be negative. A row
whose phase is no phase is refused. Of a negative number nothing is said; it is read as zero.

* `Relational.JobRow.WrittenBack`: a job that is written as it was read is written as it stands in
  its row.
* `Relational.decoding_exact_iff`: this is so of every row that is not refused, **unless there is a
  negative number in it**; and a job comes back from the row that is made of it if the row can
  hold it.
* `Relational.not_decoding_exact`: a row with a negative version is read nevertheless. No write
  will ever find it.
-/

namespace JobOperator.Relational

variable {row : JobRow} {job : Job}

/-- The row is refused, and the error says why. -/
def JobRow.Refused (row : JobRow) : Prop :=
  (∃ e, row.readSpec = .error e ∧ row.toJob = .error e ∧ e.isTransient) ∨
    row.toJob = .error (corrupt .job row.name (Job.Phase.unknownWord row.status.phase))

/-- To write the job as it was read, one asks for the columns that are in the row. -/
def JobRow.WrittenBack (row : JobRow) (job : Job) : Prop :=
  ∃ resume, updateStatus job =
    .ask (.updateStatus row.status row.name row.uid row.resourceVersion) resume

/-- What a write of a job binds. -/
theorem writtenBack_iff (hname : job.name = row.name) (huid : job.uid = row.uid) :
    row.WrittenBack job ↔
      .ofStatus job.status = row.status ∧ signed64 job.resourceVersion = row.resourceVersion := by
  constructor
  · rintro ⟨resume, h⟩
    obtain ⟨hstatement, -⟩ := Script.ask.inj h
    obtain ⟨hstatus, -, -, hversion⟩ := Statement.updateStatus.inj hstatement
    exact ⟨hstatus, hversion⟩
  · rintro ⟨hstatus, hversion⟩
    rw [JobRow.WrittenBack, ← hstatus, ← hversion, ← hname, ← huid]
    exact ⟨_, rfl⟩

/-- A phase is written as the word that it was read of. -/
theorem word_of_ofWord? {word : String} {phase : Job.Phase}
    (h : Job.Phase.ofWord? word = some phase) : phase.word = word := by
  unfold Job.Phase.ofWord? at h
  split at h <;> cases h <;> rfl

/-- Why a document is no spec of a job. -/
theorem JobRow.isTransient_of_readSpec {e : StoreError} (h : row.readSpec = .error e) :
    e.isTransient := by
  unfold readSpec Relational.readSpec at h
  cases hread : Job.Spec.ofJson row.spec with
  | ok spec =>
    rw [hread] at h
    cases h
  | error fault =>
    rw [hread] at h
    obtain rfl := Except.error.inj h
    rfl

/-- A row is read, unless its spec or its phase is none. -/
theorem JobRow.toJob_cases (row : JobRow) :
    (∃ e, row.readSpec = .error e ∧ row.toJob = .error e) ∨
    (Job.Phase.ofWord? row.status.phase = none ∧
      row.toJob = .error (corrupt .job row.name (Job.Phase.unknownWord row.status.phase))) ∨
    ∃ spec phase, row.readSpec = .ok spec ∧ Job.Phase.ofWord? row.status.phase = some phase := by
  cases hspec : row.readSpec with
  | error e =>
    refine .inl ⟨e, rfl, ?_⟩
    rw [toJob, hspec]
    rfl
  | ok spec =>
    cases hphase : Job.Phase.ofWord? row.status.phase with
    | none =>
      refine .inr (.inl ⟨rfl, ?_⟩)
      rw [toJob, hspec]
      dsimp only [bind, Except.bind]
      rw [hphase]
      rfl
    | some phase => exact .inr (.inr ⟨spec, phase, rfl, rfl⟩)

/-- What is read of a row is put there again, but for a number that is negative. -/
theorem JobRow.writtenBack_iff_of_toJob (h : row.toJob = .ok job) : row.WrittenBack job ↔
    0 ≤ row.status.retries.toInt ∧ 0 ≤ row.resourceVersion.toInt := by
  obtain ⟨e, -, he⟩ | ⟨-, he⟩ | ⟨spec, phase, hspec, hphase⟩ := row.toJob_cases
  · cases h.symm.trans he
  · cases h.symm.trans he
  · rw [toJob_eq hspec hphase] at h
    obtain rfl := Except.ok.inj h
    have hback (t : Option Stamp) : (t.map (·.toInstant)).map Stamp.ofInstant = t := by
      cases t with
      | none => rfl
      | some s => exact congrArg some s.ofInstant_toInstant
    rw [writtenBack_iff rfl rfl, signed64_unsigned64_iff, ← signed32_unsigned32_iff]
    refine and_congr_left fun _ => ?_
    simp only [StatusColumns.ofStatus, hback, word_of_ofWord? hphase]
    constructor
    · exact fun heq => congrArg StatusColumns.retries heq
    · intro heq
      rw [heq]

/-- A write of what was read finds its row, unless the version in the row is negative. -/
theorem JobRow.meant_iff_of_toJob (h : row.toJob = .ok job) :
    row.meant job.name job.uid (signed64 job.resourceVersion) = true ↔
      0 ≤ row.resourceVersion.toInt := by
  obtain ⟨e, -, he⟩ | ⟨-, he⟩ | ⟨spec, phase, hspec, hphase⟩ := row.toJob_cases
  · cases h.symm.trans he
  · cases h.symm.trans he
  · rw [toJob_eq hspec hphase] at h
    obtain rfl := Except.ok.inj h
    rw [← signed64_unsigned64_iff]
    simp only [meant, decide_true, Bool.true_and, Bool.and_true, decide_eq_true_eq]
    exact eq_comm

/-- **Decoding is exact but for negative numbers.** Every row is refused, or read as a job that is
written back as it stands in the row, exactly if its spec or phase is none or its numbers are not
negative. A job comes back from the row that is made of it exactly if its numbers fit and its times
are of whole microseconds. And a job that was read can be written exactly if the version in its
row is not negative. -/
theorem decoding_exact_iff (row : JobRow) (job : Job) :
    ((row.Refused ∨ ∃ read, row.toJob = .ok read ∧ row.WrittenBack read) ↔
      (∃ e, row.readSpec = .error e) ∨ Job.Phase.ofWord? row.status.phase = none ∨
        0 ≤ row.status.retries.toInt ∧ 0 ≤ row.resourceVersion.toInt) ∧
    ((JobRow.ofJob job).toJob = .ok job ↔ Restorable job) ∧
    (row.toJob = .ok job →
      (row.meant job.name job.uid (signed64 job.resourceVersion) = true ↔
        0 ≤ row.resourceVersion.toInt)) := by
  refine ⟨?_, JobRow.toJob_ofJob_iff, JobRow.meant_iff_of_toJob⟩
  obtain ⟨e, hspec, he⟩ | ⟨hphase, he⟩ | ⟨spec, phase, hspec, hphase⟩ := row.toJob_cases
  · have hrefused : row.Refused := .inl ⟨e, hspec, he, row.isTransient_of_readSpec hspec⟩
    exact ⟨fun _ => .inl ⟨e, hspec⟩, fun _ => .inl hrefused⟩
  · exact ⟨fun _ => .inr (.inl hphase), fun _ => .inl (.inr he)⟩
  · have hread := JobRow.toJob_eq hspec hphase
    constructor
    · rintro ((⟨e, -, he, -⟩ | he) | ⟨job, hjob, hback⟩)
      · cases hread.symm.trans he
      · cases hread.symm.trans he
      · exact .inr (.inr (row.writtenBack_iff_of_toJob hjob |>.mp hback))
    · rintro (⟨e, he⟩ | hnone | hnumbers)
      · cases hspec.symm.trans he
      · cases hphase.symm.trans hnone
      · exact .inr ⟨_, hread, (JobRow.writtenBack_iff_of_toJob hread).mpr hnumbers⟩

/-- The row of a job that runs, but for its version. -/
def unversioned : JobRow :=
  let bell : Job := {
    name := "bell", uid := .ofNat 1, resourceVersion := 4, createdAt := .ofSecond 0
    spec := { workerImage := "aer:0.15", circuits := "[]" }
    status := { phase := .running, retries := 1, workerRef := some "bell-worker-1" } }
  { JobRow.ofJob bell with resourceVersion := -1 }

theorem exists_toJob_unversioned : ∃ job, unversioned.toJob = .ok job := by
  have hspec : unversioned.readSpec = .ok { workerImage := "aer:0.15", circuits := "[]" } :=
    JobRow.readSpec_ofJob _
  have hphase : Job.Phase.ofWord? unversioned.status.phase = some .running := rfl
  exact ⟨_, JobRow.toJob_eq hspec hphase⟩

theorem decoding_exact_unversioned : ∃ job, unversioned.toJob = .ok job ∧
    unversioned.meant job.name job.uid (signed64 job.resourceVersion) = false := by
  obtain ⟨job, hread⟩ := exists_toJob_unversioned
  obtain ⟨-, -, hmeant⟩ := decoding_exact_iff unversioned job
  refine ⟨job, hread, Bool.eq_false_iff.mpr fun h => ?_⟩
  exact absurd ((hmeant hread).mp h) (by decide)

/-- A negative version is read as zero, and zero is what is written back. -/
theorem not_decoding_exact :
    ¬ ∀ row : JobRow, row.Refused ∨ ∃ job, row.toJob = .ok job ∧ row.WrittenBack job := by
  intro hall
  obtain ⟨read, hread⟩ := exists_toJob_unversioned
  rcases hall unversioned with (⟨e, -, he, -⟩ | he) | ⟨job, hjob, hback⟩
  · cases hread.symm.trans he
  · cases hread.symm.trans he
  · have hversion := ((JobRow.writtenBack_iff_of_toJob hjob).mp hback).2
    exact absurd hversion (by decide)

end JobOperator.Relational
