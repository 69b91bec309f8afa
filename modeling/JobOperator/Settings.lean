import JobOperator.Lifecycle.Pacing
import JobOperator.Table
import JobOperator.Text.Blank
import JobOperator.Text.Digits
import JobOperator.Text.Start

/-!
# Settings

What can be set about the operator. All of it is read from named variables, and every
variable has a default; a number that cannot be read counts as not set, but the name
of a worker runtime has to be known.

* `Settings`, `WorkerRuntime`: what can be set.
* `Settings.ofVariables`: the settings that variables spell.
* `Settings.Invalid`, `Settings.validate`: what is wrong with settings that can be
  read.
-/

namespace JobOperator

/-- What executes workers. -/
inductive WorkerRuntime where
  /-- each worker is a container on this host -/
  | podman
  /-- somebody else writes the phases of workers -/
  | none
  deriving DecidableEq, Repr, Inhabited

/-- A word that names no worker runtime. -/
structure UnknownRuntime where
  word : String
  deriving DecidableEq, Repr

/-- The wording of a refusal. -/
def UnknownRuntime.message (e : UnknownRuntime) : String :=
  "unknown worker runtime '" ++ e.word ++ "' (expected podman or none)"

/-- The worker runtime of a name, whatever its case and the blanks around it. -/
def WorkerRuntime.ofName (name : String) : Except UnknownRuntime WorkerRuntime :=
  match String.ofList ((Text.trim name).toList.map Char.toLower) with
  | "podman" => .ok podman
  | "none" | "" => .ok none
  | word => .error ⟨word⟩

/-- What can be set about the operator. This is `Config`. -/
structure Settings where
  /-- where requests are listened for -/
  bindAddress : String := "0.0.0.0:8080"
  /-- the database that holds the records; without one they are held in memory -/
  databaseUrl : Option String := none
  /-- when jobs are looked at again -/
  pacing : Pacing := {}
  /-- how often all jobs are looked at -/
  resyncInterval : Delay := .ofSeconds 30
  /-- how many jobs may be looked at at the same time -/
  maxConcurrent : Nat := 4
  runtime : WorkerRuntime := .none
  /-- how often containers and workers are brought into step -/
  pollInterval : Delay := .ofSeconds 2
  /-- an environment that every worker gets -/
  workerEnv : Table String := ∅
  deriving DecidableEq, Repr, Inhabited

namespace Settings

/-- The names of the variables that are read. -/
def variableNames : List String :=
  ["OPERATOR_BIND_ADDR", "DATABASE_URL", "FAST_REQUEUE_SECS", "DEFAULT_REQUEUE_SECS",
    "SLOW_REQUEUE_SECS", "RESYNC_INTERVAL_SECS", "MAX_CONCURRENT_RECONCILES", "WORKER_RUNTIME",
    "RUNTIME_POLL_SECS"]

/-- The number that a variable spells; a number fits into 64 bits. -/
def number? (env : Table String) (key : String) : Option Nat :=
  env.get? key >>= Digits.unsigned? UInt64.size

/-- The seconds that a variable spells. -/
def seconds (env : Table String) (key : String) (default : Delay) : Delay :=
  ((number? env key).map .ofSeconds).getD default

/-- What the name of a variable begins with that is handed on to workers. -/
def workerVariable : String := "WORKER_ENV_"

/-- The name under which a variable is handed on to workers. -/
def workerName? (key : String) : Option String :=
  ((Text.after? workerVariable.toList key.toList).filter (· ≠ [])).map String.ofList

/-- The variables that are handed on to workers. -/
def handedOn (env : Table String) : Table String :=
  .ofList (env.toList.filterMap fun (key, value) => (workerName? key).map (·, value))

/-- The settings that variables spell. This is `from_vars`. -/
def ofVariables (env : Table String) : Except UnknownRuntime Settings := do
  let standard : Settings := {}
  let runtime ← match env.get? "WORKER_RUNTIME" with
    | some name => WorkerRuntime.ofName name
    | none => pure standard.runtime
  return {
    bindAddress := (env.get? "OPERATOR_BIND_ADDR").getD standard.bindAddress
    databaseUrl := (env.get? "DATABASE_URL").filter (· ≠ "")
    pacing := {
      fast := seconds env "FAST_REQUEUE_SECS" standard.pacing.fast
      default := seconds env "DEFAULT_REQUEUE_SECS" standard.pacing.default
      slow := seconds env "SLOW_REQUEUE_SECS" standard.pacing.slow }
    resyncInterval := seconds env "RESYNC_INTERVAL_SECS" standard.resyncInterval
    maxConcurrent := (number? env "MAX_CONCURRENT_RECONCILES").getD standard.maxConcurrent
    runtime
    pollInterval := seconds env "RUNTIME_POLL_SECS" standard.pollInterval
    workerEnv := handedOn env }

/-- What is wrong with settings. -/
inductive Invalid where
  | noBindAddress
  | foreignDatabase
  | requeueAtOnce
  | resyncAtOnce
  | noPlaces
  | pollAtOnce
  deriving DecidableEq, Repr

/-- The wording of a refusal. -/
def Invalid.message : Invalid → String
  | noBindAddress => "bind_addr cannot be empty"
  | foreignDatabase => "database_url must start with postgres:// or postgresql://"
  | requeueAtOnce => "requeue intervals must be greater than 0"
  | resyncAtOnce => "resync_interval must be greater than 0"
  | noPlaces => "max_concurrent_reconciles must be greater than 0"
  | pollAtOnce => "runtime_poll_interval must be greater than 0"

/-- The operator can talk to a database of this address. -/
def knownDatabase (url : String) : Bool :=
  Text.beginsWith "postgres://" url || Text.beginsWith "postgresql://" url

/-- Checks settings; what is wrong first counts. This is `validate` of `Config`. -/
def validate (s : Settings) : Except Invalid Unit := do
  if s.bindAddress = "" then throw .noBindAddress
  if !s.databaseUrl.all knownDatabase then throw .foreignDatabase
  if s.pacing.fast.nanos = 0 || s.pacing.default.nanos = 0 || s.pacing.slow.nanos = 0 then
    throw .requeueAtOnce
  if s.resyncInterval.nanos = 0 then throw .resyncAtOnce
  if s.maxConcurrent = 0 then throw .noPlaces
  if s.pollInterval.nanos = 0 then throw .pollAtOnce

end Settings

end JobOperator
