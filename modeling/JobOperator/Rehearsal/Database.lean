import JobOperator.Relational.Store
import JobOperator.Startup

/-!
# A stand-in for the database

A database whose answers are scripted: statements are answered in the order in which
they come, whatever they say, and are written down. When the script has ended there are
no rows any more.

* `Rehearsal.Row`, `Rehearsal.ScriptedReply`: a row of either table, and an answer.
* `Rehearsal.Database`: the script and the statements so far.
* `Rehearsal.Database.run`: a script over the stand-in.
-/

namespace JobOperator.Rehearsal

open Relational (JobRow WorkerRow Statement Refusal SqlScript)

/-- A row of an answer. -/
inductive Row where
  | job (row : JobRow)
  | worker (row : WorkerRow)
  /-- a row that only tells that there is one -/
  | mark
  deriving Repr

/-- The row of a job. -/
def Row.job? : Row → Option JobRow
  | job row => some row
  | _ => none

/-- The row of a worker. -/
def Row.worker? : Row → Option WorkerRow
  | worker row => some row
  | _ => none

/-- An answer that is scripted in advance. -/
structure ScriptedReply where
  rows : List Row := []
  /-- the number of rows that are concerned -/
  affected : Nat := rows.length
  refusal : Option Refusal := none
  deriving Repr, Inhabited

/-- What a reply says to a statement. -/
def ScriptedReply.value (r : ScriptedReply) : (s : Statement) → s.Value
  | .define _ => ()
  | .insertJob .. | .selectJob _ | .selectJobs | .updateStatus .. => r.rows.filterMap Row.job?
  | .probeJob _ => !r.rows.isEmpty
  | .deleteJob _ | .deleteWorker _ => r.affected
  | .insertWorker .. | .selectWorker _ | .selectWorkers _ | .updateWorkerPhase .. =>
    r.rows.filterMap Row.worker?

/-- A scripted database. -/
structure Database where
  replies : List ScriptedReply := []
  /-- the statements that were executed, the last one first -/
  executed : List Statement := []
  deriving Repr, Inhabited

namespace Database

/-- Answers a statement. -/
def answer (s : Statement) (d : Database) : s.Answer × Database :=
  let reply := d.replies.head?.getD {}
  let answer := match reply.refusal with
    | some refusal => .error refusal
    | none => .ok (reply.value s)
  (answer, { replies := d.replies.drop 1, executed := s :: d.executed })

/-- Runs a script, and tells the statements that it executed. -/
def run {α : Type} (script : SqlScript α) (replies : List ScriptedReply) : α × List Statement :=
  let (result, d) := script.perform answer { replies }
  (result, d.executed.reverse)

end Database

end JobOperator.Rehearsal
