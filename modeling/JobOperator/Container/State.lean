import JobOperator.Json.Reader
import JobOperator.Json.Record
import JobOperator.Worker.Basic

/-!
# The state of a container

* `ContainerState`: what the container host tells of a container.
* `ContainerState.workerPhase`: what that means for the worker it runs.
* `ContainerState.ofInspection?`: the state in the host's report on a container,
  which is a list with an entry for each container that was asked about.
-/

namespace JobOperator

/-- What the container host tells of a container. -/
structure ContainerState where
  status : String
  /-- the exit code of a container that has ended, zero for another -/
  exitCode : Int
  deriving DecidableEq, Repr, Inhabited

namespace ContainerState

open Json

/-- The phase of the worker that a container runs. Only a container that has ended by itself can
have succeeded; a status that tells nothing of either kind means that the container has not started
yet. This is `worker_phase`. -/
def workerPhase (s : ContainerState) : Worker.Phase :=
  match String.ofList (s.status.toList.map Char.toLower) with
  | "running" | "paused" | "stopping" => .running
  | "exited" | "stopped" => if s.exitCode = 0 then .succeeded else .failed
  | "dead" | "removing" => .failed
  | _ => .pending

/-- The fields of a container's state. -/
def schema : Schema [String, Int] :=
  .cons (.required "Status" readString .str) <|
  .cons (.defaulted "ExitCode" readInt32 .int 0) .nil

/-- Reads a container's state. -/
def ofJson (value : Json) : Reading ContainerState :=
  (schema.read value).map fun (status, exitCode, _) => ⟨status, exitCode⟩

/-- A container's state as JSON. -/
def toJson (s : ContainerState) : Json := schema.write (s.status, s.exitCode, ())

/-- The fields of a report's entry that matter. -/
def entrySchema : Schema [ContainerState] :=
  .cons (.required "State" ofJson toJson) .nil

/-- Reads a report: the states of all its entries. -/
def readReport : Json → Reading (List ContainerState) :=
  readArray fun entry => (entrySchema.read entry).map (·.1)

/-- The state of the first container in a report; a report need have none. This is `parse_inspect`.
-/
def ofInspection? (bytes : List UInt8) : Reading (Option ContainerState) :=
  (decode readReport bytes).map (·.head?)

end ContainerState

end JobOperator
