import JobOperator.Container.Quantity
import JobOperator.Container.State
import JobOperator.Script
import JobOperator.Text.Pieces
import JobOperator.Worker.Launch

/-!
# Containers through podman

Every worker runs in a detached container of the worker's name. The host is asked by
command lines, so what it is asked is a list of arguments and what it answers is how
the command ended.

* `Podman.Invocation`, `Podman.Outcome`: a command line and its end.
* `Podman.Error`: why a request to the host failed.
* `Podman.checkAvailable`, `Podman.run`, `Podman.inspect`, `Podman.remove` and
  `Podman.listManaged`: the requests, as scripts of command lines.
-/

namespace JobOperator.Podman

/-- The arguments of a command line. -/
abbrev Invocation := List String

/-- How a command line ended. -/
inductive Outcome where
  /-- it could not be executed -/
  | notExecuted
  /-- it ended with a code, or without one if it was killed, and wrote this -/
  | exited (code : Option Int) (stdout stderr : List UInt8)
  deriving DecidableEq, Repr

/-- A program over the container host. -/
abbrev HostScript (α : Type) : Type := Script Invocation (fun _ => Outcome) α

/-- Runs a command line. -/
def execute (arguments : Invocation) : HostScript Outcome := .request arguments

/-- Why a request to the host failed. -/
inductive Error where
  /-- the program of this name is not there -/
  | unavailable (binary : String)
  /-- the program is there but does not work -/
  | notWorking
  /-- a command could not be executed -/
  | notExecuted (command : String)
  | notStarted (container image : String) (code : Option Int) (stderr : String)
  | notInspected (container stderr : String)
  /-- the report on a container is not what such a report should be -/
  | unreadable
  | notRemoved (container stderr : String)
  | notListed (stderr : String)
  deriving DecidableEq, Repr

/-- The wording of an error. -/
def Error.message : Error → String
  | unavailable binary =>
    "Failed to execute '" ++ binary ++ " --version'. Is podman installed?"
  | notWorking => "Podman is not working correctly"
  | notExecuted command => "Failed to execute podman " ++ command ++ " command"
  | notStarted container image code stderr =>
    "Failed to start container " ++ container ++ " for image " ++ image ++ ": exit_code="
      ++ toString (code.getD (-1)) ++ ", stderr='" ++ stderr ++ "'"
  | notInspected container stderr => "podman inspect " ++ container ++ " failed: " ++ stderr
  | unreadable => "Failed to parse podman inspect output"
  | notRemoved container stderr => "Failed to remove container " ++ container ++ ": " ++ stderr
  | notListed stderr => "podman ps failed: " ++ stderr

/-- A text holds another one somewhere. -/
def holds (part : List Char) : List Char → Bool
  | [] => part.isEmpty
  | c :: cs => part.isPrefixOf (c :: cs) || holds part cs

/-- What a command wrote says that there is no such container (`is_missing`). -/
def saysMissing (stderr : String) : Bool :=
  let text := stderr.toList.map Char.toLower
  holds "no such container".toList text || holds "no such object".toList text

/-- The arguments for each entry of a table. -/
def tableArguments (flag : String) (table : Table String) : List String :=
  table.toList.flatMap fun (key, value) => [flag, key ++ "=" ++ value]

/-- The arguments for a worker's limits. What a worker requests has no counterpart on the host. This
is `resource_args`. -/
def resourceArguments (resources : Resources) : List String :=
  (match resources.limits.cpu.bind Quantity.processors? with
    | some processors => ["--cpus", processors]
    | none => [])
  ++ match resources.limits.memory.bind Quantity.memory? with
    | some memory => ["--memory", memory]
    | none => []

/-- The command line that starts the container of a worker (`run_args`). -/
def runArguments (worker : Worker) : Invocation :=
  ["run", "-d", "--name", worker.name] ++ tableArguments "--label" worker.spec.labels
    ++ tableArguments "-e" worker.spec.env ++ resourceArguments worker.spec.resources
    ++ [worker.spec.image]

/-- Asks whether the host works. `binary` is the name of the program. This is `check_available`. -/
def checkAvailable (binary : String) : HostScript (Except Error Unit) := do
  match ← execute ["--version"] with
  | .notExecuted => return .error (.unavailable binary)
  | .exited (some 0) _ _ => return .ok ()
  | .exited _ _ _ => return .error .notWorking

/-- Starts the container of a worker. One that is there already counts as started. This is the `run`
of `PodmanClient`. -/
def run (worker : Worker) : HostScript (Except Error Unit) := do
  match ← execute (runArguments worker) with
  | .notExecuted => return .error (.notExecuted "run")
  | .exited (some 0) _ _ => return .ok ()
  | .exited code _ stderr =>
    let stderr := Utf8.decodeLossy stderr
    return if holds "already in use".toList stderr.toList then .ok ()
      else .error (.notStarted worker.name worker.spec.image code (Text.trim stderr))

/-- Asks for the state of a container, which need not exist (the `inspect` of `PodmanClient`). -/
def inspect (container : String) : HostScript (Except Error (Option ContainerState)) := do
  match ← execute ["inspect", "--type", "container", container] with
  | .notExecuted => return .error (.notExecuted "inspect")
  | .exited (some 0) stdout _ =>
    match ContainerState.ofInspection? stdout with
    | .ok state => return .ok state
    | .error _ => return .error .unreadable
  | .exited _ _ stderr =>
    let stderr := Utf8.decodeLossy stderr
    return if saysMissing stderr then .ok none
      else .error (.notInspected container (Text.trim stderr))

/-- Removes a container, which need not exist (the `remove` of `PodmanClient`). -/
def remove (container : String) : HostScript (Except Error Unit) := do
  match ← execute ["rm", "-f", container] with
  | .notExecuted => return .error (.notExecuted "rm")
  | .exited (some 0) _ _ => return .ok ()
  | .exited _ _ stderr =>
    let stderr := Utf8.decodeLossy stderr
    return if saysMissing stderr then .ok ()
      else .error (.notRemoved container (Text.trim stderr))

/-- Asks for the names of the containers that carry the operator's label (`list_managed`). -/
def listManaged : HostScript (Except Error (List String)) := do
  match ← execute ["ps", "-a", "--filter", "label=" ++ Worker.managedLabel ++ "=true",
      "--format", "\x7b\x7b.Names\x7d\x7d"] with
  | .notExecuted => return .error (.notExecuted "ps")
  | .exited (some 0) stdout _ =>
    return .ok (((Text.split '\n' (Utf8.decodeLossy stdout)).map Text.trim).filter (· ≠ ""))
  | .exited _ _ stderr => return .error (.notListed (Text.trim (Utf8.decodeLossy stderr)))

end JobOperator.Podman
