import JobOperator.Time.Instant
import JobOperator.Uid

/-!
# Jobs

A job is a simulation to be run: what to run and under which limits is fixed when
it is submitted, and how far it has come is its status.

* `Job.Phase`: the stages of a job's life; the last two are terminal.
* `Job.Spec`: what is wanted. A timeout of zero seconds is none, and a job without
  a time to live is kept for good.
* `Job.Status`: what has been seen.
* `Job`: both under a name, with the identity of this incarnation and the version
  that every write of the record counts up.
-/

namespace JobOperator

namespace Job

/-- A stage of a job's life. -/
inductive Phase where
  /-- submitted, and not yet looked at -/
  | unstarted
  /-- waiting for a worker -/
  | pending
  /-- a worker has been seen -/
  | running
  /-- a worker succeeded -/
  | completed
  /-- the retries are spent, or the time is -/
  | failed
  deriving DecidableEq, Repr, Inhabited

namespace Phase

/-- The word for a phase. -/
def word : Phase → String
  | unstarted => "unstarted"
  | pending => "pending"
  | running => "running"
  | completed => "completed"
  | failed => "failed"

/-- The phase that a word stands for. -/
def ofWord? : String → Option Phase
  | "unstarted" => some unstarted
  | "pending" => some pending
  | "running" => some running
  | "completed" => some completed
  | "failed" => some failed
  | _ => none

/-- Why a word is refused. -/
def unknownWord (word : String) : String := "unknown job phase: " ++ word

@[simp] theorem ofWord?_word (p : Phase) : ofWord? p.word = some p := by cases p <;> rfl

/-- A job in a terminal phase never changes again (`is_terminal`). -/
def terminal : Phase → Bool
  | completed | failed => true
  | _ => false

end Phase

end Job

/-- Amounts of processor and memory, as texts that the container host
understands. -/
structure ResourceList where
  cpu : Option String := none
  memory : Option String := none
  deriving DecidableEq, Repr, Inhabited

/-- What a worker asks for, and what it must not exceed. -/
structure Resources where
  requests : ResourceList := {}
  limits : ResourceList := {}
  deriving DecidableEq, Repr, Inhabited

namespace Job

/-- What a job is to run, and under which limits. -/
structure Spec where
  /-- the image that a worker runs -/
  workerImage : String
  /-- the simulator that the work is meant for -/
  backendName : String := "aer-simulator"
  /-- how often the circuits are executed -/
  shots : UInt32 := 1024
  /-- the circuits, in a form that only the worker reads -/
  circuits : String
  /-- the number of failed workers that a job survives -/
  maxRetries : UInt32 := 3
  /-- the seconds from its start after which a job fails; zero for no limit -/
  timeoutSeconds : UInt64 := 600
  /-- the seconds for which a finished job is kept; `none` for ever -/
  ttlSecondsAfterFinished : Option UInt64 := some 300
  /-- the resources of a worker -/
  resources : Resources := {}
  deriving DecidableEq, Repr, Inhabited

namespace Spec

/-- The greatest number of seconds that a time limit is taken for. -/
def longestSeconds : Nat := 9223372036854775807 / 1000

/-- The time limit in seconds, if there is one. This is `timeout` of `JobSpec`. -/
def timeout (s : Spec) : Option Nat :=
  if s.timeoutSeconds = 0 then none else some (min s.timeoutSeconds.toNat longestSeconds)

/-- The time to live in seconds, if there is one. This is `ttl` of `JobSpec`. -/
def ttl (s : Spec) : Option Nat :=
  s.ttlSecondsAfterFinished.map fun seconds => min seconds.toNat longestSeconds

end Spec

/-- How far a job has come. -/
structure Status where
  phase : Phase := .unstarted
  /-- the number of failed workers so far -/
  retries : UInt32 := 0
  /-- the worker of the current attempt -/
  workerRef : Option String := none
  startTime : Option Instant := none
  completionTime : Option Instant := none
  errorMessage : Option String := none
  deriving DecidableEq, Repr, Inhabited

end Job

/-- A job as it is stored. -/
structure Job where
  name : String
  /-- tells this incarnation from others of the same name -/
  uid : Uid
  /-- counts the writes of the record -/
  resourceVersion : UInt64
  createdAt : Instant
  spec : Job.Spec
  status : Job.Status := {}
  deriving DecidableEq, Repr, Inhabited

namespace Job

/-- A request for a new job. This is `CreateJob`. -/
structure Submission where
  name : String
  spec : Spec
  deriving DecidableEq, Repr, Inhabited

/-- The job that a request asks for, before it is stored for the first time. -/
def Submission.toJob (s : Submission) (uid : Uid) (createdAt : Instant) : Job where
  name := s.name
  uid := uid
  resourceVersion := 0
  createdAt := createdAt
  spec := s.spec

end Job

end JobOperator
