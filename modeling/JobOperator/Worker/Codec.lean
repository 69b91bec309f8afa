import JobOperator.Job.Codec
import JobOperator.Worker.Basic

/-!
# Workers as JSON

As for jobs, one schema for each record. An environment and the labels are objects
with a string for each name; a name that comes twice has its last value.
-/

namespace JobOperator

open Json

namespace Worker

/-- A table of texts as JSON. -/
def tableToJson (t : Table String) : Json :=
  .record (t.toList.map fun (key, value) => (key, .str value))

/-- Takes in the members of a table, one after another. -/
def readEntries : List (Option String × Json) → Table String → Reading (Table String)
  | [], table => .ok table
  | (none, _) :: _, _ => .error .malformed
  | (some key, value) :: members, table => do
    readEntries members (table.insert key (← readString value))

/-- Reads a table of texts. -/
def tableOfJson : Json → Reading (Table String)
  | .object members => readEntries members ∅
  | value => .error (mismatch value)

/-- A phase as JSON. -/
def Phase.toJson (p : Phase) : Json := .str p.word

/-- Reads a phase. -/
def Phase.ofJson : Json → Reading Phase := readWord Phase.ofWord?

namespace Spec

/-- The fields of what is launched. -/
def schema : Schema [String, Table String, Table String, Resources] :=
  .cons (.required "image" readString .str) <|
  .cons (.defaulted "env" tableOfJson tableToJson ∅) <|
  .cons (.defaulted "labels" tableOfJson tableToJson ∅) <|
  .cons (.defaulted "resources" Resources.ofJson Resources.toJson {}) .nil

/-- What is launched, as JSON. -/
def toJson (s : Spec) : Json := schema.write (s.image, s.env, s.labels, s.resources, ())

/-- Reads what is launched. -/
def ofJson (value : Json) : Reading Spec :=
  (schema.read value).map fun (image, env, labels, resources, _) =>
    ⟨image, env, labels, resources⟩

end Spec

end Worker

namespace Owner

/-- The fields of an owner. -/
def schema : Schema [String, Uid] :=
  .cons (.required "name" readString .str) <|
  .cons (.required "uid" Uid.ofJson Uid.toJson) .nil

/-- An owner as JSON. -/
def toJson (o : Owner) : Json := schema.write (o.name, o.uid, ())

/-- Reads an owner. -/
def ofJson (value : Json) : Reading Owner :=
  (schema.read value).map fun (name, uid, _) => ⟨name, uid⟩

end Owner

namespace Worker

namespace Launch

/-- The fields of a request for a worker. -/
def schema : Schema [String, Owner, Spec] :=
  .cons (.required "name" readString .str) <|
  .cons (.required "owner" Owner.ofJson Owner.toJson) <|
  .cons (.required "spec" Spec.ofJson Spec.toJson) .nil

/-- A request for a worker as JSON. -/
def toJson (l : Launch) : Json := schema.write (l.name, l.owner, l.spec, ())

/-- Reads a request for a worker. -/
def ofJson (value : Json) : Reading Launch :=
  (schema.read value).map fun (name, owner, spec, _) => ⟨name, owner, spec⟩

end Launch

/-- The fields of a worker. -/
def schema : Schema [String, Owner, Spec, Phase, Instant] :=
  .cons (.required "name" readString .str) <|
  .cons (.required "owner" Owner.ofJson Owner.toJson) <|
  .cons (.required "spec" Spec.ofJson Spec.toJson) <|
  .cons (.required "phase" Phase.ofJson Phase.toJson) <|
  .cons (.required "createdAt" Instant.ofJson Instant.toJson) .nil

/-- A worker as JSON. -/
def toJson (w : Worker) : Json := schema.write (w.name, w.owner, w.spec, w.phase, w.createdAt, ())

/-- Reads a worker. -/
def ofJson (value : Json) : Reading Worker :=
  (schema.read value).map fun (name, owner, spec, phase, createdAt, _) =>
    ⟨name, owner, spec, phase, createdAt⟩

end Worker

end JobOperator
