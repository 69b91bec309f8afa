import JobOperator.Job.Basic
import JobOperator.Table

/-!
# Workers

A worker is one attempt at a job. Its record says what is to be launched and how
the container that runs it was last seen.

* `Worker.Phase`: what is known of the container.
* `Worker.Spec`: what is launched.
* `Owner`: the incarnation of a job that a worker belongs to.
* `Worker.Launch`: the request for a worker; `Worker`: the record it becomes.
-/

namespace JobOperator

namespace Worker

/-- What is known of the container that runs a worker. -/
inductive Phase where
  /-- not yet seen running -/
  | pending
  | running
  | succeeded
  /-- ended with a failure, or was lost -/
  | failed
  deriving DecidableEq, Repr, Inhabited

namespace Phase

/-- The word for a phase. -/
def word : Phase → String
  | pending => "Pending"
  | running => "Running"
  | succeeded => "Succeeded"
  | failed => "Failed"

/-- The phase that a word stands for. -/
def ofWord? : String → Option Phase
  | "Pending" => some pending
  | "Running" => some running
  | "Succeeded" => some succeeded
  | "Failed" => some failed
  | _ => none

/-- Why a word is refused. -/
def unknownWord (word : String) : String := "unknown worker phase: " ++ word

@[simp] theorem ofWord?_word (p : Phase) : ofWord? p.word = some p := by cases p <;> rfl

/-- The container has ended (`is_finished`). -/
def finished : Phase → Bool
  | succeeded | failed => true
  | _ => false

end Phase

/-- What is launched for a worker. -/
structure Spec where
  image : String
  /-- the environment of the container -/
  env : Table String := ∅
  labels : Table String := ∅
  resources : Resources := {}
  deriving DecidableEq, Repr, Inhabited

end Worker

/-- The incarnation of a job that a worker belongs to. -/
structure Owner where
  name : String
  uid : Uid
  deriving DecidableEq, Repr, Inhabited

/-- The request for a worker. -/
structure Worker.Launch where
  name : String
  owner : Owner
  spec : Worker.Spec
  deriving DecidableEq, Repr, Inhabited

/-- A worker as it is stored. -/
structure Worker where
  name : String
  owner : Owner
  spec : Worker.Spec
  phase : Worker.Phase
  createdAt : Instant
  deriving DecidableEq, Repr, Inhabited

/-- The record that a request becomes (`from_launch`). -/
def Worker.Launch.toWorker (l : Worker.Launch) (createdAt : Instant) : Worker where
  name := l.name
  owner := l.owner
  spec := l.spec
  phase := .pending
  createdAt := createdAt

end JobOperator
