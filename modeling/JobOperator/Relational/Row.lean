import JobOperator.Json.Reader
import JobOperator.Relational.Stamp
import JobOperator.Store.Error
import JobOperator.Worker.Codec

/-!
# Rows

Jobs and workers are rows of two tables. A phase is a word there, a spec is a JSON
document, and numbers are signed; a number that does not fit is kept as the greatest
one that does.

* `Relational.StatusColumns`, `Relational.JobRow`, `Relational.WorkerRow`: the columns.
* `Relational.StatusColumns.ofStatus`: a status as columns.
* `Relational.JobRow.toJob`, `Relational.WorkerRow.toWorker`: a row as a record, if it
  makes sense.
-/

namespace JobOperator.Relational

/-- The greatest signed number of 32 bits. -/
def greatest32 : Nat := 2147483647

/-- The greatest signed number of 64 bits. -/
def greatest64 : Nat := 9223372036854775807

/-- A count as a column keeps it. This is `to_i32`. -/
def signed32 (n : UInt32) : Int32 := .ofNat (min n.toNat greatest32)

/-- A version as a column keeps it. This is `to_i64`. -/
def signed64 (n : UInt64) : Int64 := .ofNat (min n.toNat greatest64)

/-- The count in a column; a negative one is none at all. -/
def unsigned32 (n : Int32) : UInt32 := .ofNat n.toInt.toNat

/-- The version in a column; a negative one is none at all. -/
def unsigned64 (n : Int64) : UInt64 := .ofNat n.toInt.toNat

/-- The columns of a job's status. -/
structure StatusColumns where
  phase : String
  retries : Int32
  workerRef : Option String
  startTime : Option Stamp
  completionTime : Option Stamp
  errorMessage : Option String
  deriving DecidableEq, Repr, Inhabited

/-- A status as columns. -/
def StatusColumns.ofStatus (s : Job.Status) : StatusColumns where
  phase := s.phase.word
  retries := signed32 s.retries
  workerRef := s.workerRef
  startTime := s.startTime.map .ofInstant
  completionTime := s.completionTime.map .ofInstant
  errorMessage := s.errorMessage

/-- A row of the table of jobs. -/
structure JobRow where
  name : String
  uid : Uid
  resourceVersion : Int64
  createdAt : Stamp
  spec : Json
  status : StatusColumns
  deriving Repr, Inhabited

/-- A row of the table of workers. -/
structure WorkerRow where
  name : String
  ownerName : String
  ownerUid : Uid
  spec : Json
  phase : String
  createdAt : Stamp
  deriving Repr, Inhabited

/-- Why a row makes no sense. This is `corrupt`. -/
def corrupt (kind : ObjectKind) (name detail : String) : StoreError :=
  .transient ("corrupt " ++ kind.word ++ " row " ++ name ++ ": " ++ detail)

/-- Why a document in a column is none that is wanted. -/
def undecodable (column : String) : StoreError :=
  .transient ("error occurred while decoding column \"" ++ column ++ "\"")

/-- Reads the document in the column of a spec. -/
def readSpec {α : Type} (read : Json → Json.Reading α) (spec : Json) : Except StoreError α :=
  (read spec).mapError fun _ => undecodable "spec"

/-- The spec of a job's row. -/
def JobRow.readSpec (row : JobRow) : Except StoreError Job.Spec :=
  Relational.readSpec Job.Spec.ofJson row.spec

/-- A row as a job. This is `try_from` of a `JobRow`. -/
def JobRow.toJob (row : JobRow) : Except StoreError Job := do
  let spec ← row.readSpec
  match Job.Phase.ofWord? row.status.phase with
  | none => throw (corrupt .job row.name (Job.Phase.unknownWord row.status.phase))
  | some phase =>
    return {
      name := row.name
      uid := row.uid
      resourceVersion := unsigned64 row.resourceVersion
      createdAt := row.createdAt.toInstant
      spec
      status := {
        phase
        retries := unsigned32 row.status.retries
        workerRef := row.status.workerRef
        startTime := row.status.startTime.map (·.toInstant)
        completionTime := row.status.completionTime.map (·.toInstant)
        errorMessage := row.status.errorMessage } }

/-- The spec of a worker's row. -/
def WorkerRow.readSpec (row : WorkerRow) : Except StoreError Worker.Spec :=
  Relational.readSpec Worker.Spec.ofJson row.spec

/-- A row as a worker. This is `try_from` of a `WorkerRow`. -/
def WorkerRow.toWorker (row : WorkerRow) : Except StoreError Worker := do
  let spec ← row.readSpec
  match Worker.Phase.ofWord? row.phase with
  | none => throw (corrupt .worker row.name (Worker.Phase.unknownWord row.phase))
  | some phase =>
    return {
      name := row.name
      owner := ⟨row.ownerName, row.ownerUid⟩
      spec
      phase
      createdAt := row.createdAt.toInstant }

end JobOperator.Relational
