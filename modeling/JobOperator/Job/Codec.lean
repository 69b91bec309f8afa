import JobOperator.Job.Basic
import JobOperator.Json.Record
import JobOperator.Time.Timestamp

/-!
# Jobs as JSON

One schema for each record, read and written by it. Members that may be missing
have a default; the optional members of a status are left out when there is
nothing to write, while a time to live that is absent is written as `null`, since
leaving it out means the default.
-/

namespace JobOperator

open Json

/-- An instant as JSON. -/
def Instant.toJson (t : Instant) : Json := .str (Timestamp.render t)

/-- Reads an instant. -/
def Instant.ofJson : Json → Reading Instant := readParsed Timestamp.parse?

/-- A uid as JSON. -/
def Uid.toJson (u : Uid) : Json := .str u.render

/-- Reads a uid. -/
def Uid.ofJson : Json → Reading Uid := readParsed Uid.parse?

namespace ResourceList

/-- The fields of a list of resources. -/
def schema : Schema [Option String, Option String] :=
  .cons (.optional "cpu" readString .str) <|
  .cons (.optional "memory" readString .str) .nil

/-- A list of resources as JSON. -/
def toJson (r : ResourceList) : Json := schema.write (r.cpu, r.memory, ())

/-- Reads a list of resources. -/
def ofJson (value : Json) : Reading ResourceList :=
  (schema.read value).map fun (cpu, memory, _) => ⟨cpu, memory⟩

end ResourceList

namespace Resources

/-- The fields of a worker's resources. -/
def schema : Schema [ResourceList, ResourceList] :=
  .cons (.defaulted "requests" ResourceList.ofJson ResourceList.toJson {}) <|
  .cons (.defaulted "limits" ResourceList.ofJson ResourceList.toJson {}) .nil

/-- A worker's resources as JSON. -/
def toJson (r : Resources) : Json := schema.write (r.requests, r.limits, ())

/-- Reads a worker's resources. -/
def ofJson (value : Json) : Reading Resources :=
  (schema.read value).map fun (requests, limits, _) => ⟨requests, limits⟩

end Resources

namespace Job

/-- A number of 32 bits as JSON. -/
def word32 (n : UInt32) : Json := .nat n.toNat

/-- A number of 64 bits as JSON. -/
def word64 (n : UInt64) : Json := .nat n.toNat

/-- A phase as JSON. -/
def Phase.toJson (p : Phase) : Json := .str p.word

/-- Reads a phase. -/
def Phase.ofJson : Json → Reading Phase := readWord Phase.ofWord?

namespace Spec

/-- The fields of a spec. -/
def schema : Schema [String, String, UInt32, String, UInt32, UInt64, Option UInt64, Resources] :=
  .cons (.required "workerImage" readString .str) <|
  .cons (.defaulted "backendName" readString .str "aer-simulator") <|
  .cons (.defaulted "shots" readUInt32 word32 1024) <|
  .cons (.required "circuits" readString .str) <|
  .cons (.defaulted "maxRetries" readUInt32 word32 3) <|
  .cons (.defaulted "timeoutSeconds" readUInt64 word64 600) <|
  .cons (.defaulted "ttlSecondsAfterFinished" (readOption readUInt64) (writeOption word64)
    (some 300)) <|
  .cons (.defaulted "resources" Resources.ofJson Resources.toJson {}) .nil

/-- A spec as JSON. -/
def toJson (s : Spec) : Json :=
  schema.write (s.workerImage, s.backendName, s.shots, s.circuits, s.maxRetries,
    s.timeoutSeconds, s.ttlSecondsAfterFinished, s.resources, ())

/-- Reads a spec. -/
def ofJson (value : Json) : Reading Spec :=
  (schema.read value).map
    fun (workerImage, backendName, shots, circuits, maxRetries, timeout, ttl, resources, _) =>
      ⟨workerImage, backendName, shots, circuits, maxRetries, timeout, ttl, resources⟩

end Spec

namespace Status

/-- The fields of a status. -/
def schema : Schema
    [Phase, UInt32, Option String, Option Instant, Option Instant, Option String] :=
  .cons (.defaulted "phase" Phase.ofJson Phase.toJson .unstarted) <|
  .cons (.defaulted "retries" readUInt32 word32 0) <|
  .cons (.optional "workerRef" readString .str) <|
  .cons (.optional "startTime" Instant.ofJson Instant.toJson) <|
  .cons (.optional "completionTime" Instant.ofJson Instant.toJson) <|
  .cons (.optional "errorMessage" readString .str) .nil

/-- A status as JSON. -/
def toJson (s : Status) : Json :=
  schema.write (s.phase, s.retries, s.workerRef, s.startTime, s.completionTime,
    s.errorMessage, ())

/-- Reads a status. -/
def ofJson (value : Json) : Reading Status :=
  (schema.read value).map
    fun (phase, retries, workerRef, startTime, completionTime, errorMessage, _) =>
      ⟨phase, retries, workerRef, startTime, completionTime, errorMessage⟩

end Status

/-- The fields of a job. -/
def schema : Schema [String, Uid, UInt64, Instant, Spec, Status] :=
  .cons (.required "name" readString .str) <|
  .cons (.required "uid" Uid.ofJson Uid.toJson) <|
  .cons (.required "resourceVersion" readUInt64 word64) <|
  .cons (.required "createdAt" Instant.ofJson Instant.toJson) <|
  .cons (.required "spec" Spec.ofJson Spec.toJson) <|
  .cons (.defaulted "status" Status.ofJson Status.toJson {}) .nil

/-- A job as JSON. -/
def toJson (j : Job) : Json :=
  schema.write (j.name, j.uid, j.resourceVersion, j.createdAt, j.spec, j.status, ())

/-- Reads a job. -/
def ofJson (value : Json) : Reading Job :=
  (schema.read value).map fun (name, uid, resourceVersion, createdAt, spec, status, _) =>
    ⟨name, uid, resourceVersion, createdAt, spec, status⟩

namespace Submission

/-- The fields of a request for a job. -/
def schema : Schema [String, Spec] :=
  .cons (.required "name" readString .str) <|
  .cons (.required "spec" Spec.ofJson Spec.toJson) .nil

/-- A request for a job as JSON. -/
def toJson (s : Submission) : Json := schema.write (s.name, s.spec, ())

/-- Reads a request for a job. -/
def ofJson (value : Json) : Reading Submission :=
  (schema.read value).map fun (name, spec, _) => ⟨name, spec⟩

end Submission

end Job

end JobOperator
