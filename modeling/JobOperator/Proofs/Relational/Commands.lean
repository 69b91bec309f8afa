import JobOperator.Proofs.Relational.Database

/-!
# What the texts say

* `Relational.jobSchema`, `Relational.workerSchema`: the columns that the migrations set up.
* `Relational.Statement.command`: the command in the text of each statement.
* `Relational.Statement.read_sql`: **the text of every statement is read as that command**, and
  takes as many parameters as the statement binds.
* `Relational.Database.query_sql`: so the text does what the command does.

For the kernel to read a text, it is cut into the literals that it is put together from: to compute
the characters of a whole text takes far longer than to read them.
-/

namespace JobOperator.Relational

open Sql (Column Expression Condition Command Query)

/-- The columns of the table of jobs. -/
def jobSchema : List Column := [
  { name := "name", type := .varchar (some 253), required := true, key := true },
  { name := "uid", type := .uuid, required := true },
  { name := "resource_version", type := .bigint, required := true },
  { name := "created_at", type := .timestamptz, required := true },
  { name := "spec", type := .jsonb, required := true },
  { name := "phase", type := .varchar (some 20), required := true },
  { name := "retries", type := .integer, required := true, default := some 0 },
  { name := "worker_ref", type := .varchar (some 253) },
  { name := "start_time", type := .timestamptz },
  { name := "completion_time", type := .timestamptz },
  { name := "error_message", type := .text }]

/-- The columns of the table of workers. -/
def workerSchema : List Column := [
  { name := "name", type := .varchar (some 253), required := true, key := true },
  { name := "owner_name", type := .varchar (some 253), required := true
    reference := some ⟨"jobs", "name", true⟩ },
  { name := "owner_uid", type := .uuid, required := true },
  { name := "spec", type := .jsonb, required := true },
  { name := "phase", type := .varchar (some 20), required := true },
  { name := "created_at", type := .timestamptz, required := true }]

/-- All columns of the table of jobs. -/
def jobOutputs : List Expression := jobSchema.map (.column ·.name)

/-- All columns of the table of workers. -/
def workerOutputs : List Expression := workerSchema.map (.column ·.name)

/-- A column has the value that is bound to a placeholder. -/
def Sql.Condition.binds (column : String) (number : Nat) : Condition :=
  .equal (.column column) (.bound number)

/-- The changes of a write of a status. -/
def statusChanges : List (String × Expression) := [
  ("phase", .bound 1), ("retries", .bound 2), ("worker_ref", .bound 3), ("start_time", .bound 4),
  ("completion_time", .bound 5), ("error_message", .bound 6),
  ("resource_version", .sum (.column "resource_version") (.literal 1))]

/-- The values of a new job. It is at version one. -/
def jobValues : List Expression :=
  [.bound 1, .bound 2, .literal 1, .bound 3, .bound 4, .bound 5, .bound 6, .bound 7, .bound 8,
    .bound 9, .bound 10]

/-- The values of a new worker, from the row of its owner. -/
def ownerQuery : Query where
  outputs := [.bound 1, .column "name", .column "uid", .bound 2, .bound 3, .bound 4]
  table := "jobs"
  condition := some (.and (.binds "name" 5) (.binds "uid" 6))

/-- The command in the text of a definition. -/
def Definition.command : Definition → Command
  | jobs => .createTable "jobs" jobSchema
  | workers => .createTable "workers" workerSchema
  | jobsByPhase => .createIndex "jobs" "phase"
  | workersByOwner => .createIndex "workers" "owner_name"

/-- The command in the text of a statement. -/
def Statement.command : Statement → Command
  | define what => what.command
  | insertJob .. =>
    .insert "jobs" (jobSchema.map (·.name)) (.values jobValues) jobOutputs
  | selectJob _ => .select ⟨jobOutputs, "jobs", some (.binds "name" 1), none⟩
  | selectJobs => .select ⟨jobOutputs, "jobs", none, some "created_at"⟩
  | updateStatus .. =>
    .update "jobs" statusChanges
      (some (.and (.and (.binds "name" 7) (.binds "uid" 8)) (.binds "resource_version" 9)))
      jobOutputs
  | probeJob _ => .select ⟨[.literal 1], "jobs", some (.binds "name" 1), none⟩
  | deleteJob _ => .delete "jobs" (some (.binds "name" 1))
  | insertWorker .. =>
    .insert "workers" (workerSchema.map (·.name)) (.query ownerQuery) workerOutputs
  | selectWorker _ => .select ⟨workerOutputs, "workers", some (.binds "name" 1), none⟩
  | selectWorkers _ =>
    .select ⟨workerOutputs, "workers",
      some (.or (.isNull (.cast (.bound 1) (.varchar none))) (.binds "owner_name" 1)),
      some "created_at"⟩
  | updateWorkerPhase .. =>
    .update "workers" [("phase", .bound 1)] (some (.binds "name" 2)) workerOutputs
  | deleteWorker _ => .delete "workers" (some (.binds "name" 1))

theorem Definition.read_sql (what : Definition) :
    Sql.parse what.sql = some what.command ∧ Sql.arity what.sql = 0 := by
  cases what
  all_goals
    unfold sql
    dsimp only
    rw [Sql.parse, Sql.arity, Sql.tokens]
    repeat rw [String.toList_append]
    repeat rw [String.toList_ofList]
    exact ⟨by decide +kernel, by decide +kernel⟩

/-- **The text of every statement is read as its command**, and takes as many parameters as the
statement binds. -/
theorem Statement.read_sql (s : Statement) :
    Sql.parse s.sql = some s.command ∧ Sql.arity s.sql = s.parameters.length := by
  cases s with
  | define what => exact what.read_sql
  | _ =>
    unfold sql command parameters
    dsimp only [jobColumns, workerColumns, StatusColumns.parameters, List.cons_append,
      List.nil_append, List.length_cons, List.length_nil]
    rw [Sql.parse, Sql.arity, Sql.tokens]
    repeat rw [String.toList_append]
    repeat rw [String.toList_ofList]
    exact ⟨by decide +kernel, by decide +kernel⟩

/-- The text of a statement does what its command does. -/
theorem Database.query_sql (db : Database) (s : Statement) :
    db.query s.sql s.parameters = db.run s.parameters s.command := by
  rw [query, s.read_sql.1]
  exact if_pos s.read_sql.2.symm

end JobOperator.Relational
