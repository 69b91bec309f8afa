import JobOperator.Proofs.Relational.Database

/-!
# What the statements mean

What the statements mean on the two tables, row by row. That their texts mean this is shown in
`JobOperator.Proofs.Relational.Reading`. In which order the rows come is not a matter of the
statements.

* `Relational.Server.execute`: the meaning of each statement: the keys of the tables, the reference
  from a worker to its job, and whom the deletion of a job takes with it.
* `Relational.Server.answer`: a statement that is refused changes nothing.
* `Relational.Server.perform_about`, `Relational.Server.perform_overall`: what a store call of one
  statement comes to.
-/

namespace JobOperator.Relational

/-! ## Columns -/

/-- The width of a column for a name. -/
def nameWidth : Nat := 253

/-- The width of a column for a phase. -/
def phaseWidth : Nat := 20

/-- A status in its columns. -/
def StatusColumns.fit (s : StatusColumns) : Except Refusal StatusColumns := do
  return { s with
    phase := ← Relational.fit phaseWidth s.phase
    workerRef := ← s.workerRef.mapM (Relational.fit nameWidth) }

/-- The row of a job as the table keeps it. -/
def JobRow.fit (row : JobRow) : Except Refusal JobRow := do
  return { row with
    name := ← Relational.fit nameWidth row.name
    spec := row.spec.kept
    status := ← row.status.fit }

/-- The row of a worker as the table keeps it. -/
def WorkerRow.fit (row : WorkerRow) : Except Refusal WorkerRow := do
  return { row with
    name := ← Relational.fit nameWidth row.name
    ownerName := ← Relational.fit nameWidth row.ownerName
    spec := row.spec.kept
    phase := ← Relational.fit phaseWidth row.phase }

/-- The row is the one that a write of a status is meant for. -/
def JobRow.meant (row : JobRow) (name : String) (uid : Uid) (version : Int64) : Bool :=
  (row.uid = uid && row.resourceVersion = version) && row.name = name

/-- The row of a job after a write of its status. -/
def JobRow.written (row : JobRow) (status : StatusColumns) : Except Refusal JobRow :=
  if row.resourceVersion = Int64.maxValue then .error .versionOutOfRange
  else return { row with status := ← status.fit, resourceVersion := row.resourceVersion + 1 }

/-- The row of a worker after a write of its phase. -/
def WorkerRow.written (row : WorkerRow) (phase : String) : Except Refusal WorkerRow := do
  return { row with phase := ← Relational.fit phaseWidth phase }

/-! ## Tables -/

/-- The two tables. -/
structure Server where
  jobs : List JobRow := []
  workers : List WorkerRow := []
  deriving Inhabited

namespace Server

/-- Puts in a job. -/
def insertJob (d : Server) (row : JobRow) : Except Refusal (List JobRow × Server) := do
  let row ← row.fit
  if d.jobs.any (·.name = row.name) then throw (.keyTaken "jobs")
  return ([row], { d with jobs := d.jobs ++ [row] })

/-- Writes a status. -/
def writeStatus (d : Server) (status : StatusColumns) (name : String) (uid : Uid)
    (version : Int64) : Except Refusal (List JobRow × Server) := do
  let rows ← (d.jobs.filter (·.meant name uid version)).mapM (·.written status)
  return (rows, { d with jobs := d.jobs.filter (! ·.meant name uid version) ++ rows })

/-- Takes out a job, and whoever refers to it. -/
def deleteJob (d : Server) (name : String) : Nat × Server :=
  let gone := d.jobs.filter (·.name = name)
  (gone.length,
    { jobs := d.jobs.filter (·.name ≠ name)
      workers := d.workers.filter fun row => ! gone.any (·.name = row.ownerName) })

/-- Puts a worker, as the table keeps it, into a table. -/
def putWorker (workers : List WorkerRow) (row : WorkerRow) : Except Refusal (List WorkerRow) :=
  if workers.any (·.name = row.name) then .error (.keyTaken "workers")
  else .ok (workers ++ [row])

/-- The job that a worker refers to is there. -/
def checkOwner (d : Server) (row : WorkerRow) : Except Refusal Unit :=
  if d.jobs.any (·.name = row.ownerName) then .ok ()
  else .error (.dangling "workers" "owner_name")

/-- Puts in workers. What they refer to is looked for when all are in. -/
def insertWorkers (d : Server) (rows : List WorkerRow) :
    Except Refusal (List WorkerRow × Server) := do
  let rows ← rows.mapM (·.fit)
  let after : Server := { d with workers := ← rows.foldlM putWorker d.workers }
  rows.forM after.checkOwner
  return (rows, after)

/-- Writes a phase. -/
def writePhase (d : Server) (phase name : String) : Except Refusal (List WorkerRow × Server) := do
  let rows ← (d.workers.filter (·.name = name)).mapM (·.written phase)
  return (rows, { d with workers := d.workers.filter (·.name ≠ name) ++ rows })

/-- Takes out a worker. -/
def deleteWorker (d : Server) (name : String) : Nat × Server :=
  ((d.workers.filter (·.name = name)).length,
    { d with workers := d.workers.filter (·.name ≠ name) })

/-- Executes a statement: what it yields, and the tables after it. The tables are set up already,
and to define them again does nothing. -/
def execute : (s : Statement) → Server → Except Refusal (s.Value × Server)
  | .define _, d => .ok ((), d)
  | .insertJob name uid createdAt spec status, d =>
    d.insertJob ⟨name, uid, 1, createdAt, spec, status⟩
  | .selectJob name, d => .ok (d.jobs.filter (·.name = name), d)
  | .selectJobs, d => .ok (d.jobs.mergeSort (·.createdAt.micros ≤ ·.createdAt.micros), d)
  | .updateStatus status name uid version, d => d.writeStatus status name uid version
  | .probeJob name, d => .ok (d.jobs.any (·.name = name), d)
  | .deleteJob name, d => .ok (d.deleteJob name)
  | .insertWorker name spec phase createdAt ownerName ownerUid, d =>
    let owners := d.jobs.filter fun owner => owner.uid = ownerUid && owner.name = ownerName
    d.insertWorkers <| owners.map fun owner =>
      ⟨name, owner.name, owner.uid, spec, phase, createdAt⟩
  | .selectWorker name, d => .ok (d.workers.filter (·.name = name), d)
  | .selectWorkers owner, d =>
    .ok ((d.workers.filter fun row => owner.all (row.ownerName = ·)).mergeSort
      (·.createdAt.micros ≤ ·.createdAt.micros), d)
  | .updateWorkerPhase phase name, d => d.writePhase phase name
  | .deleteWorker name, d => .ok (d.deleteWorker name)

/-- The answer to a statement, and the tables after it. -/
def answer (s : Statement) (d : Server) : s.Answer × Server :=
  match s.parameters.findSome? Parameter.refusal? with
  | some refusal => (.error refusal, d)
  | none =>
    match execute s d with
    | .ok (value, d') => (.ok value, d')
    | .error refusal => (.error refusal, d)

/-- All that a statement binds can be sent. -/
def Sendable (s : Statement) : Prop := ∀ p ∈ s.parameters, p.refusal? = none

variable {s : Statement} {d d' : Server} {value : s.Value} {name : String}

theorem answer_of_execute (sendable : Sendable s) (h : execute s d = .ok (value, d')) :
    answer s d = (.ok value, d') := by
  rw [answer, List.findSome?_eq_none_iff.mpr sendable, h]

theorem answer_of_refused {refusal : Refusal} (sendable : Sendable s)
    (h : execute s d = .error refusal) : answer s d = (.error refusal, d) := by
  rw [answer, List.findSome?_eq_none_iff.mpr sendable, h]

theorem insertJob_taken {row kept : JobRow} (fits : row.fit = .ok kept)
    (taken : d.jobs.any (·.name = kept.name) = true) :
    d.insertJob row = .error (.keyTaken "jobs") := by
  rw [insertJob, fits]
  show (if d.jobs.any (·.name = kept.name) = true then _ else _) = _
  rw [if_pos taken]
  rfl

theorem insertJob_free {row kept : JobRow} (fits : row.fit = .ok kept)
    (free : d.jobs.any (·.name = kept.name) = false) :
    d.insertJob row = .ok ([kept], { d with jobs := d.jobs ++ [kept] }) := by
  rw [insertJob, fits]
  show (if d.jobs.any (·.name = kept.name) = true then _ else _) = _
  rw [if_neg (Bool.eq_false_iff.mp free)]
  rfl

/-- A write that hits a row. -/
theorem writeStatus_hit {status : StatusColumns} {uid : Uid} {version : Int64}
    {row written : JobRow} (hit : d.jobs.filter (·.meant name uid version) = [row])
    (hwritten : row.written status = .ok written) :
    d.writeStatus status name uid version =
      .ok ([written], { d with
        jobs := d.jobs.filter (! ·.meant name uid version) ++ [written] }) := by
  rw [writeStatus, hit, List.mapM_cons, hwritten]
  rfl

/-- A write that is meant for no row. -/
theorem writeStatus_missed {status : StatusColumns} {uid : Uid} {version : Int64}
    (missed : d.jobs.filter (·.meant name uid version) = []) :
    d.writeStatus status name uid version = .ok ([], d) := by
  rw [writeStatus, missed, filter_not_eq_self missed]
  show Except.ok ([], { d with jobs := d.jobs ++ [] }) = _
  rw [List.append_nil]

theorem insertWorkers_taken {row kept : WorkerRow} (fits : row.fit = .ok kept)
    (taken : d.workers.any (·.name = kept.name) = true) :
    d.insertWorkers [row] = .error (.keyTaken "workers") := by
  have hput : putWorker d.workers kept = .error (.keyTaken "workers") := if_pos taken
  rw [insertWorkers, List.mapM_cons, fits]
  show (do let workers ← [kept].foldlM putWorker d.workers; _) = _
  rw [List.foldlM_cons, hput]
  rfl

theorem insertWorkers_free {row kept : WorkerRow} (fits : row.fit = .ok kept)
    (free : d.workers.any (·.name = kept.name) = false)
    (owned : d.jobs.any (·.name = kept.ownerName) = true) :
    d.insertWorkers [row] = .ok ([kept], { d with workers := d.workers ++ [kept] }) := by
  let after : Server := { d with workers := d.workers ++ [kept] }
  have hput : putWorker d.workers kept = .ok after.workers := if_neg (Bool.eq_false_iff.mp free)
  have howner : after.checkOwner kept = .ok () := if_pos owned
  rw [insertWorkers, List.mapM_cons, fits]
  show (do let workers ← [kept].foldlM putWorker d.workers; _) = _
  rw [List.foldlM_cons, hput]
  show (do [kept].forM after.checkOwner; _) = _
  rw [List.forM_eq_forM, List.forM_cons, howner]
  rfl

theorem writePhase_found {phase : String} {row written : WorkerRow}
    (found : d.workers.filter (·.name = name) = [row])
    (hwritten : row.written phase = .ok written) :
    d.writePhase phase name =
      .ok ([written], { d with workers := d.workers.filter (·.name ≠ name) ++ [written] }) := by
  rw [writePhase, found, List.mapM_cons, hwritten]
  rfl

theorem writePhase_absent {phase : String} (absent : d.workers.filter (·.name = name) = []) :
    d.writePhase phase name = .ok ([], d) := by
  rw [writePhase, absent, filter_ne_eq_self absent]
  show Except.ok ([], { d with workers := d.workers ++ [] }) = _
  rw [List.append_nil]

/-! ## Store calls -/

variable {α : Type} {kind : ObjectKind} {read : s.Value → Except StoreError α}

theorem perform_execute (s : Statement) (d : Server) :
    (Relational.execute s).perform answer d = answer s d := rfl

/-- A statement about a record is executed, and what it yields is read. -/
theorem perform_about (h : answer s d = (.ok value, d')) :
    (about kind name s read).perform answer d = (read value, d') := by
  rw [about, Script.perform_bind, perform_execute, h]
  rfl

/-- A statement about a record is refused. -/
theorem perform_about_refused {refusal : Refusal} (h : answer s d = (.error refusal, d')) :
    (about kind name s read).perform answer d = (.error (refusal.toStoreError kind name), d') := by
  rw [about, Script.perform_bind, perform_execute, h]
  rfl

/-- A statement about all records is executed, and what it yields is read. -/
theorem perform_overall (h : answer s d = (.ok value, d')) :
    (overall s read).perform answer d = (read value, d') := by
  rw [overall, Script.perform_bind, perform_execute, h]
  rfl

end Server

/-! ## What fits -/

/-- A name that a column can hold. -/
structure NameFits (s : String) : Prop where
  textual : textual s
  width : s.length ≤ nameWidth

/-- A status that columns can hold. -/
structure StatusFits (s : Job.Status) : Prop extends StatusHeld s where
  workerRef : ∀ name, s.workerRef = some name → NameFits name
  errorMessage : Textual s.errorMessage

theorem fit_of_le {width : Nat} {s : String} (h : s.length ≤ width) : fit width s = .ok s := by
  rw [← String.length_toList] at h
  rw [fit, List.drop_eq_nil_of_le h, List.take_of_length_le h, String.ofList_toList]
  rfl

theorem fit_jobPhase (phase : Job.Phase) : fit phaseWidth phase.word = .ok phase.word :=
  fit_of_le (by cases phase <;> decide)

theorem fit_workerPhase (phase : Worker.Phase) : fit phaseWidth phase.word = .ok phase.word :=
  fit_of_le (by cases phase <;> decide)

/-- A status that fits is kept as it is. -/
theorem StatusFits.fit {s : Job.Status} (h : StatusFits s) :
    (StatusColumns.ofStatus s).fit = .ok (.ofStatus s) := by
  have hworkerRef : s.workerRef.mapM (Relational.fit nameWidth) = .ok s.workerRef := by
    cases hs : s.workerRef with
    | none => rfl
    | some name =>
      show (do return some (← Relational.fit nameWidth name)) = _
      rw [fit_of_le (h.workerRef name hs).width]
      rfl
  rw [StatusColumns.fit, StatusColumns.ofStatus, fit_jobPhase, hworkerRef]
  rfl

/-- A job that fits is kept as it is, at version one. -/
theorem JobRow.fit_ofJob {job : Job} (name : NameFits job.name) (status : StatusFits job.status) :
    (JobRow.mk job.name job.uid 1 (.ofInstant job.createdAt) job.spec.toJson
      (.ofStatus job.status)).fit = .ok (ofJob { job with resourceVersion := 1 }) := by
  rw [fit, fit_of_le name.width, status.fit]
  rfl

/-- A worker that fits is kept as it is. -/
theorem WorkerRow.fit_ofWorker (worker : Worker) (name : NameFits worker.name)
    (owner : NameFits worker.owner.name) :
    (WorkerRow.mk worker.name worker.owner.name worker.owner.uid worker.spec.toJson
      worker.phase.word (.ofInstant worker.createdAt)).fit = .ok (ofWorker worker) := by
  rw [fit, fit_of_le name.width, fit_of_le owner.width, fit_workerPhase]
  rfl

theorem WorkerRow.written_ofWorker (worker : Worker) (phase : Worker.Phase) :
    (ofWorker worker).written phase.word = .ok (ofWorker { worker with phase }) := by
  rw [written, fit_workerPhase]
  rfl

/-- The row of a job after a write is the row of the job after it. -/
theorem JobRow.written_ofJob {job : Job} {status : Job.Status} (h : StatusFits status)
    (fits : job.resourceVersion.toNat ≤ greatest64)
    (next : (job.resourceVersion + 1).toNat ≤ greatest64) :
    (ofJob job).written (.ofStatus status) =
      .ok (ofJob { job with status, resourceVersion := job.resourceVersion + 1 }) := by
  obtain ⟨hmax, hnext⟩ := signed64_succ fits next
  have hmax' : (ofJob job).resourceVersion ≠ Int64.maxValue := hmax
  rw [written, if_neg hmax', h.fit]
  show Except.ok (JobRow.mk job.name job.uid (signed64 job.resourceVersion + 1) _ _ _) = _
  rw [hnext]
  rfl

theorem sendable_text {s : String} (h : textual s) : (Parameter.text s).refusal? = none :=
  if_pos h

theorem sendable_stamp {t : Instant} (h : Held t) :
    (Parameter.stamp (.ofInstant t)).refusal? = none := if_pos h.inRange

theorem sendable_document {j : Json} (h : j.storable) :
    (Parameter.document j).refusal? = none := if_pos h

theorem sendable_text? {s : Option String} (h : Textual s) :
    (Parameter.ofText? s).refusal? = none := by
  cases s with
  | none => rfl
  | some s => exact sendable_text (h s rfl)

theorem sendable_stamp? {t : Option Instant} (h : ∀ s, t = some s → Held s) :
    (Parameter.ofStamp? (t.map .ofInstant)).refusal? = none := by
  cases t with
  | none => rfl
  | some t => exact sendable_stamp (h t rfl)

theorem StatusFits.sendable {s : Job.Status} (h : StatusFits s) :
    ∀ p ∈ (StatusColumns.ofStatus s).parameters, p.refusal? = none := by
  have hphase : textual s.phase.word := by cases s.phase <;> decide
  have hworkerRef : Textual s.workerRef := fun name hs => (h.workerRef name hs).textual
  simp only [StatusColumns.parameters, StatusColumns.ofStatus, List.forall_mem_cons]
  exact ⟨sendable_text hphase, rfl, sendable_text? hworkerRef, sendable_stamp? h.startTime,
    sendable_stamp? h.completionTime, sendable_text? h.errorMessage, List.forall_mem_nil _⟩

end JobOperator.Relational
