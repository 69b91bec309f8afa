import JobOperator.Relational.Row
import JobOperator.Script

/-!
# Statements

What the operator asks a database. A statement is a value with the parameters that it
binds; its text is a function of it.

* `Relational.Definition`: the statements that set up the tables.
* `Relational.Statement`, `Relational.Statement.sql`, `Relational.Statement.parameters`:
  all statements, their text and what they bind.
* `Relational.Statement.Value`, `Relational.Refusal`: what a statement is answered.
* `Relational.SqlScript`: programs over a database.
-/

namespace JobOperator.Relational

/-- A statement that sets up a table or an index, if it is not there. -/
inductive Definition where
  | jobs
  | workers
  | jobsByPhase
  | workersByOwner
  deriving DecidableEq, Repr

/-- A statement. -/
inductive Statement where
  | define (what : Definition)
  /-- a new job, at version one -/
  | insertJob (name : String) (uid : Uid) (createdAt : Stamp) (spec : Json)
      (status : StatusColumns)
  | selectJob (name : String)
  /-- all jobs, the oldest first -/
  | selectJobs
  /-- the status of a job, if it still has an identity and a version -/
  | updateStatus (status : StatusColumns) (name : String) (uid : Uid) (version : Int64)
  /-- whether there is a job -/
  | probeJob (name : String)
  | deleteJob (name : String)
  /-- a new worker, if its owner is there -/
  | insertWorker (name : String) (spec : Json) (phase : String) (createdAt : Stamp)
      (ownerName : String) (ownerUid : Uid)
  | selectWorker (name : String)
  /-- all workers, or those of a job, the oldest first -/
  | selectWorkers (owner : Option String)
  | updateWorkerPhase (phase : String) (name : String)
  | deleteWorker (name : String)
  deriving Repr

/-- A value that a statement binds. -/
inductive Parameter where
  | null
  | text (value : String)
  | number (value : Int)
  | uid (value : Uid)
  | stamp (value : Stamp)
  | document (value : Json)
  deriving Repr

namespace Parameter

/-- Nothing, or a text. -/
def ofText? : Option String → Parameter
  | none => null
  | some value => text value

/-- Nothing, or a time. -/
def ofStamp? : Option Stamp → Parameter
  | none => null
  | some value => stamp value

end Parameter

/-- The parameters of a status. -/
def StatusColumns.parameters (s : StatusColumns) : List Parameter :=
  [.text s.phase, .number s.retries.toInt, .ofText? s.workerRef, .ofStamp? s.startTime,
    .ofStamp? s.completionTime, .ofText? s.errorMessage]

/-- The columns of the table of jobs (`JOB_COLUMNS`). -/
def jobColumns : String :=
  "name, uid, resource_version, created_at, spec, phase, retries, worker_ref, start_time, "
    ++ "completion_time, error_message"

/-- The columns of the table of workers (`WORKER_COLUMNS`). -/
def workerColumns : String := "name, owner_name, owner_uid, spec, phase, created_at"

/-- The text of a definition. -/
def Definition.sql : Definition → String
  | jobs =>
    "CREATE TABLE IF NOT EXISTS jobs ( name VARCHAR(253) PRIMARY KEY, uid UUID NOT NULL, "
      ++ "resource_version BIGINT NOT NULL, created_at TIMESTAMPTZ NOT NULL, "
      ++ "spec JSONB NOT NULL, phase VARCHAR(20) NOT NULL, "
      ++ "retries INTEGER NOT NULL DEFAULT 0, worker_ref VARCHAR(253), "
      ++ "start_time TIMESTAMPTZ, completion_time TIMESTAMPTZ, error_message TEXT )"
  | workers =>
    "CREATE TABLE IF NOT EXISTS workers ( name VARCHAR(253) PRIMARY KEY, "
      ++ "owner_name VARCHAR(253) NOT NULL REFERENCES jobs(name) ON DELETE CASCADE, "
      ++ "owner_uid UUID NOT NULL, spec JSONB NOT NULL, phase VARCHAR(20) NOT NULL, "
      ++ "created_at TIMESTAMPTZ NOT NULL )"
  | jobsByPhase => "CREATE INDEX IF NOT EXISTS idx_jobs_phase ON jobs(phase)"
  | workersByOwner =>
    "CREATE INDEX IF NOT EXISTS idx_workers_owner_name ON workers(owner_name)"

namespace Statement

/-- The text of a statement. -/
def sql : Statement → String
  | define what => what.sql
  | insertJob .. =>
    "INSERT INTO jobs (" ++ jobColumns ++ ") VALUES ($1, $2, 1, $3, $4, $5, $6, $7, $8, $9, $10) "
      ++ "RETURNING " ++ jobColumns
  | selectJob _ => "SELECT " ++ jobColumns ++ " FROM jobs WHERE name = $1"
  | selectJobs => "SELECT " ++ jobColumns ++ " FROM jobs ORDER BY created_at ASC"
  | updateStatus .. =>
    "UPDATE jobs SET phase = $1, retries = $2, worker_ref = $3, start_time = $4, "
      ++ "completion_time = $5, error_message = $6, resource_version = resource_version + 1 "
      ++ "WHERE name = $7 AND uid = $8 AND resource_version = $9 RETURNING " ++ jobColumns
  | probeJob _ => "SELECT 1 FROM jobs WHERE name = $1"
  | deleteJob _ => "DELETE FROM jobs WHERE name = $1"
  | insertWorker .. =>
    "INSERT INTO workers (" ++ workerColumns ++ ") SELECT $1, name, uid, $2, $3, $4 FROM jobs "
      ++ "WHERE name = $5 AND uid = $6 RETURNING " ++ workerColumns
  | selectWorker _ => "SELECT " ++ workerColumns ++ " FROM workers WHERE name = $1"
  | selectWorkers _ =>
    "SELECT " ++ workerColumns ++ " FROM workers WHERE $1::VARCHAR IS NULL OR owner_name = $1 "
      ++ "ORDER BY created_at ASC"
  | updateWorkerPhase .. =>
    "UPDATE workers SET phase = $1 WHERE name = $2 RETURNING " ++ workerColumns
  | deleteWorker _ => "DELETE FROM workers WHERE name = $1"

/-- What a statement binds, in the order of its placeholders. -/
def parameters : Statement → List Parameter
  | define _ | selectJobs => []
  | insertJob name uid createdAt spec status =>
    .text name :: .uid uid :: .stamp createdAt :: .document spec :: status.parameters
  | updateStatus status name uid version =>
    status.parameters ++ [.text name, .uid uid, .number version.toInt]
  | selectJob name | probeJob name | deleteJob name | selectWorker name | deleteWorker name =>
    [.text name]
  | insertWorker name spec phase createdAt ownerName ownerUid =>
    [.text name, .document spec, .text phase, .stamp createdAt, .text ownerName, .uid ownerUid]
  | selectWorkers owner => [.ofText? owner]
  | updateWorkerPhase phase name => [.text phase, .text name]

/-- What a statement yields when it succeeds: rows, whether there are any, or how many
were deleted. -/
abbrev Value : Statement → Type
  | define _ => Unit
  | insertJob .. | selectJob _ | selectJobs | updateStatus .. => List JobRow
  | probeJob _ => Bool
  | deleteJob _ | deleteWorker _ => Nat
  | insertWorker .. | selectWorker _ | selectWorkers _ | updateWorkerPhase .. => List WorkerRow

end Statement

/-- Why a database refuses a statement. -/
structure Refusal where
  /-- the class of the cause, as five characters -/
  code : String
  message : String
  deriving DecidableEq, Repr, Inhabited

namespace Refusal

/-- A key is taken. -/
def uniqueViolation : String := "23505"

/-- What a row refers to is not there. -/
def foreignKeyViolation : String := "23503"

/-- The wording of a refusal. -/
def text (f : Refusal) : String := "error returned from database: " ++ f.message

/-- What a refusal of a statement about a record means. This is `map_sqlx_error`. -/
def toStoreError (f : Refusal) (kind : ObjectKind) (name : String) : StoreError :=
  if f.code = uniqueViolation then .alreadyExists kind name
  else if f.code = foreignKeyViolation then .notFound .job name
  else .transient f.text

end Refusal

/-- What a statement is answered. -/
abbrev Statement.Answer (s : Statement) : Type := Except Refusal s.Value

/-- A program over a database. -/
abbrev SqlScript (α : Type) : Type := Script Statement Statement.Answer α

/-- Executes a statement. -/
def execute (s : Statement) : SqlScript s.Answer := .request s

/-- Executes definitions, up to the first one that fails. -/
def defineAll : List Definition → SqlScript (Except Refusal Unit)
  | [] => return .ok ()
  | what :: rest => do
    match ← execute (.define what) with
    | .ok _ => defineAll rest
    | .error refusal => return .error refusal

/-- Sets up all tables and indices (`run_migrations`). -/
def migrate : SqlScript (Except Refusal Unit) :=
  defineAll [.jobs, .workers, .jobsByPhase, .workersByOwner]

end JobOperator.Relational
