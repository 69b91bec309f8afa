import JobOperator.Proofs.Relational.Row
import JobOperator.Proofs.Relational.Sql
import JobOperator.Relational.Store

/-!
# A database that reads SQL

Tables with primary keys, `NOT NULL`, defaults, widths, and foreign keys with or without
`ON DELETE CASCADE`; and what a command does to them. A statement is executed as a whole, and one
that is refused changes nothing.

* `Relational.Parameter.refusal?`: what cannot be sent as a parameter.
* `Relational.Sql.Column.keep`: a value as a column keeps it.
* `Relational.Sql.Condition.eval`: a condition about a row, in the logic of three values.
* `Relational.Relation`, `Relational.Database`: a table with its rows, and all tables.
* `Relational.Database.run`, `Relational.Database.query`: what a command does, and what a text does
  with the parameters that are bound to it.
* `Relational.Statement.receive`: what the caller reads out of the rows, by the names of columns.
* `Relational.Database.answer`: the answer to a statement, which is sent **as its text and its
  parameters**.

Of what a server could be asked, what the statements do not use is left out and refused: to change a
key, and a chain of foreign keys.
-/

namespace JobOperator.Relational

/-! ## What is refused -/

namespace Refusal

/-- A text is no command. -/
def unreadable : Refusal := ⟨"42601", "syntax error"⟩

/-- Another number of parameters is bound than the text takes. -/
def misbound : Refusal := ⟨"08P01", "bind message supplies another number of parameters"⟩

/-- There is no such table. -/
def noTable (table : String) : Refusal :=
  ⟨"42P01", "relation \"" ++ table ++ "\" does not exist"⟩

/-- There is no such column. -/
def noColumn (column : String) : Refusal :=
  ⟨"42703", "column \"" ++ column ++ "\" does not exist"⟩

/-- A value is of another type. -/
def mistyped : Refusal := ⟨"42804", "datatype mismatch"⟩

/-- A command is beyond what is modelled. -/
def unsupported : Refusal := ⟨"0A000", "feature not supported"⟩

/-- A text has a character of code zero. -/
def untextual : Refusal := ⟨"22021", "invalid byte sequence for encoding \"UTF8\": 0x00"⟩

/-- A time is out of range. -/
def timeOutOfRange : Refusal := ⟨"22008", "timestamp out of range"⟩

/-- A document has a text with a character of code zero, or something that is no document. -/
def unstorable : Refusal := ⟨"22P05", "unsupported Unicode escape sequence"⟩

/-- A text is too long for its column. -/
def tooLong (width : Nat) : Refusal :=
  ⟨"22001", "value too long for type character varying(" ++ toString width ++ ")"⟩

/-- A number is out of the range of its column. -/
def countOutOfRange : Refusal := ⟨"22003", "integer out of range"⟩

/-- A version cannot be counted up. -/
def versionOutOfRange : Refusal := ⟨"22003", "bigint out of range"⟩

/-- A column has to have a value. -/
def missing (column : String) : Refusal :=
  ⟨"23502", "null value in column \"" ++ column ++ "\" violates not-null constraint"⟩

/-- A key is taken. -/
def keyTaken (table : String) : Refusal :=
  ⟨uniqueViolation, "duplicate key value violates unique constraint \"" ++ table ++ "_pkey\""⟩

/-- What a row refers to is not there. -/
def dangling (table column : String) : Refusal :=
  ⟨foreignKeyViolation, "insert or update on table \"" ++ table
    ++ "\" violates foreign key constraint \"" ++ table ++ "_" ++ column ++ "_fkey\""⟩

/-- A row is still referred to. -/
def stillReferenced (table column : String) : Refusal :=
  ⟨foreignKeyViolation, "update or delete on a table violates foreign key constraint \"" ++ table
    ++ "_" ++ column ++ "_fkey\" on table \"" ++ table ++ "\""⟩

end Refusal

namespace Parameter

/-- Why a value cannot be sent. -/
def refusal? : Parameter → Option Refusal
  | text value => if textual value then none else some .untextual
  | stamp value => if value.InRange then none else some .timeOutOfRange
  | document value => if value.storable then none else some .unstorable
  | null | number _ | uid _ => none

/-- `=`. Nothing is known of `NULL`. No statement compares documents. -/
def equal : Parameter → Parameter → Except Refusal (Option Bool)
  | null, _ | _, null => .ok none
  | text a, text b => .ok (some (a = b))
  | number a, number b => .ok (some (a = b))
  | uid a, uid b => .ok (some (a = b))
  | stamp a, stamp b => .ok (some (a = b))
  | _, _ => .error .mistyped

/-- Two values are known to be equal. -/
def same (a b : Parameter) : Bool :=
  match a.equal b with
  | .ok (some true) => true
  | _ => false

/-- The order of `ORDER BY … ASC`: `NULL` comes last. No statement orders anything but times and
numbers. -/
def le : Parameter → Parameter → Bool
  | stamp a, stamp b => a.micros ≤ b.micros
  | number a, number b => a ≤ b
  | null, null => true
  | null, _ => false
  | _, _ => true

/-- A signed number of 64 bits. -/
def bigint (n : Int) : Except Refusal Parameter :=
  if Int64.minValue.toInt ≤ n ∧ n ≤ Int64.maxValue.toInt then .ok (number n)
  else .error .versionOutOfRange

/-- A signed number of 32 bits. -/
def integer (n : Int) : Except Refusal Parameter :=
  if Int32.minValue.toInt ≤ n ∧ n ≤ Int32.maxValue.toInt then .ok (number n)
  else .error .countOutOfRange

/-- `+`. -/
def add : Parameter → Parameter → Except Refusal Parameter
  | null, _ | _, null => .ok null
  | number a, number b => bigint (a + b)
  | _, _ => .error .mistyped

end Parameter

/-! ## Columns -/

/-- A text in a column of limited width. Only spaces are cut off. -/
def fit (width : Nat) (s : String) : Except Refusal String :=
  if (s.toList.drop width).all (· = ' ') then .ok (.ofList (s.toList.take width))
  else .error (.tooLong width)

/-- A row: what it has in its columns, by their names. -/
abbrev Tuple : Type := List (String × Parameter)

/-- Rows in the order of a column. -/
def Tuple.le (column : String) (a b : Tuple) : Bool :=
  ((a.lookup column).getD .null).le ((b.lookup column).getD .null)

namespace Sql

/-- A value that is put into a column of a type. -/
def ColumnType.keep : ColumnType → Parameter → Except Refusal Parameter
  | _, .null => .ok .null
  | varchar (some width), .text s => return .text (← fit width s)
  | varchar none, .text s => .ok (.text s)
  | text, .text s => .ok (.text s)
  | uuid, .uid u => .ok (.uid u)
  | integer, .number n => Parameter.integer n
  | bigint, .number n => Parameter.bigint n
  | timestamptz, .stamp t => .ok (.stamp t)
  | jsonb, .document j => .ok (.document j.kept)
  | _, _ => .error .mistyped

/-- A value that is put into a column. -/
def Column.keep (c : Column) : Parameter → Except Refusal Parameter
  | .null => if c.required then .error (.missing c.name) else .ok .null
  | value => c.type.keep value

/-- The value of a column that is not given one. -/
def Column.initial (c : Column) : Parameter := c.default.elim .null (.number ·)

/-! ## Expressions and conditions -/

/-- The value of an expression in a row. The first of the parameters has the number one. -/
def Expression.eval (bound : List Parameter) (row : Tuple) :
    Expression → Except Refusal Parameter
  | column name => (row.lookup name).elim (.error (.noColumn name)) .ok
  | .bound number => (bound[number - 1]?).elim (.error .misbound) .ok
  | literal n => .ok (.number n)
  | sum a b => do (← a.eval bound row).add (← b.eval bound row)
  | cast a type => do type.keep (← a.eval bound row)

/-- The name of the column that an expression gives. -/
def Expression.label : Expression → String
  | column name => name
  | _ => "?column?"

/-- `AND` of three values. -/
def both : Option Bool → Option Bool → Option Bool
  | some false, _ | _, some false => some false
  | some true, some true => some true
  | _, _ => none

/-- `OR` of three values. -/
def either : Option Bool → Option Bool → Option Bool
  | some true, _ | _, some true => some true
  | some false, some false => some false
  | _, _ => none

/-- What is known of a condition in a row. -/
def Condition.eval (bound : List Parameter) (row : Tuple) :
    Condition → Except Refusal (Option Bool)
  | equal a b => do (← a.eval bound row).equal (← b.eval bound row)
  | isNull a => do
    match ← a.eval bound row with
    | .null => return some true
    | _ => return some false
  | and p q => return both (← p.eval bound row) (← q.eval bound row)
  | or p q => return either (← p.eval bound row) (← q.eval bound row)

/-- `WHERE`: a row is meant if the condition is known to hold. -/
def meant (bound : List Parameter) (condition : Option Condition) (row : Tuple) :
    Except Refusal Bool :=
  match condition with
  | none => .ok true
  | some c => return (← c.eval bound row).getD false

/-- The columns that are asked for. -/
def project (bound : List Parameter) (outputs : List Expression) (row : Tuple) :
    Except Refusal Tuple :=
  outputs.mapM fun e => return (e.label, ← e.eval bound row)

end Sql

open Sql (Column ColumnType Expression Condition Query Source Command)

/-- Cuts rows into those of which something holds, and the others. -/
def divide (p : Tuple → Except Refusal Bool) : List Tuple → Except Refusal (List Tuple × List Tuple)
  | [] => .ok ([], [])
  | row :: rows => do
    let hit ← p row
    let (hits, others) ← divide p rows
    return if hit then (row :: hits, others) else (hits, row :: others)

/-! ## Tables -/

/-- A table with its rows. -/
structure Relation where
  name : String
  columns : List Column
  rows : List Tuple := []

namespace Relation

/-- Rows have the same value in two columns. -/
def shares (row : Tuple) (column : String) (other : Tuple) (column' : String) : Bool :=
  match row.lookup column, other.lookup column' with
  | some a, some b => a.same b
  | _, _ => false

/-- There is such a column. -/
def checkColumn (r : Relation) (column : String) : Except Refusal Unit :=
  if r.columns.any (·.name = column) then .ok () else .error (.noColumn column)

/-- The row that is given values for some columns. -/
def complete (r : Relation) (given : Tuple) : Except Refusal Tuple :=
  r.columns.mapM fun c => return (c.name, ← c.keep ((given.lookup c.name).getD c.initial))

/-- The row of as many values as there are columns that they are for. -/
def arrange (r : Relation) (columns : List String) (values : List Parameter) :
    Except Refusal Tuple :=
  if values.length = columns.length then r.complete (columns.zip values) else .error .unreadable

/-- Puts in a row, if its key is free. -/
def add (r : Relation) (row : Tuple) : Except Refusal Relation :=
  if r.rows.any fun other => r.columns.any fun c => c.key && shares other c.name row c.name then
    .error (.keyTaken r.name)
  else .ok { r with rows := r.rows ++ [row] }

/-- What a column has after changes, which are made by the values before. -/
def changed (bound : List Parameter) (changes : List (String × Expression)) (row : Tuple)
    (c : Column) : Except Refusal Parameter :=
  match changes.lookup c.name with
  | some e => do c.keep (← e.eval bound row)
  | none => (Expression.column c.name).eval bound row

/-- A row after changes, which are made in the order of the columns. -/
def change (r : Relation) (bound : List Parameter) (changes : List (String × Expression))
    (row : Tuple) : Except Refusal Tuple :=
  r.columns.mapM fun c => return (c.name, ← changed bound changes row c)

/-- What happens to rows when rows of another table go that a column refers to. -/
def release (table : String) (gone : List Tuple) (r : Relation) (c : Column) :
    Except Refusal Relation :=
  match c.reference with
  | none => .ok r
  | some reference =>
    let refers row := gone.any fun other => shares other reference.column row c.name
    if reference.table ≠ table then .ok r
    else if reference.cascade then .ok { r with rows := r.rows.filter (! refers ·) }
    else if r.rows.any refers then .error (.stillReferenced r.name c.name)
    else .ok r

end Relation

/-- All tables. -/
abbrev Database : Type := List Relation

/-- What a command gives: rows, and how many are concerned. -/
structure Outcome where
  rows : List Tuple := []
  affected : Nat := rows.length

namespace Database

/-- The table of a name. -/
def relation (db : Database) (table : String) : Except Refusal Relation :=
  (db.find? (·.name = table)).elim (.error (.noTable table)) .ok

/-- Another content of a table. -/
def replace (db : Database) (r : Relation) : Database :=
  db.map fun other => if other.name = r.name then r else other

/-- A foreign key refers to the primary key of a table that refers to none itself. -/
def refersWell (db : Database) (c : Column) : Bool :=
  c.reference.all fun reference => db.any fun r => r.name = reference.table
    && (r.columns.any fun key => key.name = reference.column && key.key)
    && r.columns.all (·.reference.isNone)

/-- What a row refers to is there. -/
def checkReferences (db : Database) (r : Relation) (row : Tuple) : Except Refusal Unit :=
  r.columns.forM fun c =>
    match c.reference with
    | none => .ok ()
    | some reference => do
      let target ← db.relation reference.table
      match row.lookup c.name with
      | some .null => return ()
      | _ =>
        if target.rows.any (Relation.shares · reference.column row c.name) then return ()
        else throw (.dangling r.name c.name)

/-- `SELECT`. -/
def select (bound : List Parameter) (q : Query) (db : Database) : Except Refusal (List Tuple) := do
  let r ← db.relation q.table
  let (rows, _) ← divide (Sql.meant bound q.condition) r.rows
  let sorted := match q.order with
    | none => rows
    | some column => rows.mergeSort (Tuple.le column)
  sorted.mapM (Sql.project bound q.outputs)

/-- The values of the rows that are put in. -/
def given (bound : List Parameter) (db : Database) :
    Source → Except Refusal (List (List Parameter))
  | .values row => return [← row.mapM (·.eval bound [])]
  | .query q => return (← select bound q db).map (·.map (·.2))

/-- What a command does. A change of a key is not supported. -/
def run (bound : List Parameter) (db : Database) : Command → Except Refusal (Outcome × Database)
  | .createTable table columns =>
    if db.any (·.name = table) then .ok ({}, db)
    else if columns.all db.refersWell then .ok ({}, db ++ [⟨table, columns, []⟩])
    else .error .unsupported
  | .createIndex table column => do
    (← db.relation table).checkColumn column
    return ({}, db)
  | .select q => return ({ rows := ← select bound q db }, db)
  | .insert table columns source returning => do
    let r ← db.relation table
    columns.forM r.checkColumn
    let rows ← (← given bound db source).mapM (r.arrange columns)
    let after := db.replace (← rows.foldlM Relation.add r)
    rows.forM (after.checkReferences r)
    return ({ rows := ← rows.mapM (Sql.project bound returning), affected := rows.length }, after)
  | .update table changes condition returning => do
    let r ← db.relation table
    changes.forM fun e => r.checkColumn e.1
    if r.columns.any fun c => (c.key || c.reference.isSome) && (changes.lookup c.name).isSome then
      throw .unsupported
    let (hits, others) ← divide (Sql.meant bound condition) r.rows
    let rows ← hits.mapM (r.change bound changes)
    return ({ rows := ← rows.mapM (Sql.project bound returning), affected := rows.length },
      db.replace { r with rows := others ++ rows })
  | .delete table condition => do
    let r ← db.relation table
    let (gone, others) ← divide (Sql.meant bound condition) r.rows
    let after ← (db.replace { r with rows := others }).mapM fun other =>
      other.columns.foldlM (Relation.release table gone) other
    return ({ affected := gone.length }, after)

/-- What a text does, with what is bound to its placeholders. -/
def query (text : String) (bound : List Parameter) (db : Database) :
    Except Refusal (Outcome × Database) :=
  match Sql.parse text with
  | none => .error .unreadable
  | some command =>
    if bound.length = Sql.arity text then db.run bound command else .error .misbound

end Database

/-! ## What the caller reads -/

namespace Tuple

variable (row : Tuple) (column : String)

/-- A text in a column. -/
def text : Option String :=
  match row.lookup column with
  | some (.text s) => some s
  | _ => none

/-- A number in a column. -/
def number : Option Int :=
  match row.lookup column with
  | some (.number n) => some n
  | _ => none

/-- An identifier in a column. -/
def uid : Option Uid :=
  match row.lookup column with
  | some (.uid u) => some u
  | _ => none

/-- A time in a column. -/
def stamp : Option Stamp :=
  match row.lookup column with
  | some (.stamp t) => some t
  | _ => none

/-- A document in a column. -/
def document : Option Json :=
  match row.lookup column with
  | some (.document j) => some j
  | _ => none

/-- What may be missing from a column. -/
def nullable {α : Type} (read : Tuple → String → Option α) : Option (Option α) :=
  match row.lookup column with
  | some .null => some none
  | _ => (read row column).map some

end Tuple

/-- Reads the row of a job. -/
def JobRow.ofTuple? (row : Tuple) : Option JobRow := do
  return {
    name := ← row.text "name"
    uid := ← row.uid "uid"
    resourceVersion := .ofInt (← row.number "resource_version")
    createdAt := ← row.stamp "created_at"
    spec := ← row.document "spec"
    status := {
      phase := ← row.text "phase"
      retries := .ofInt (← row.number "retries")
      workerRef := ← row.nullable "worker_ref" Tuple.text
      startTime := ← row.nullable "start_time" Tuple.stamp
      completionTime := ← row.nullable "completion_time" Tuple.stamp
      errorMessage := ← row.nullable "error_message" Tuple.text } }

/-- Reads the row of a worker. -/
def WorkerRow.ofTuple? (row : Tuple) : Option WorkerRow := do
  return {
    name := ← row.text "name"
    ownerName := ← row.text "owner_name"
    ownerUid := ← row.uid "owner_uid"
    spec := ← row.document "spec"
    phase := ← row.text "phase"
    createdAt := ← row.stamp "created_at" }

/-- What the caller of a statement reads out of its outcome. -/
def Statement.receive : (s : Statement) → Outcome → s.Answer
  | define _, _ => .ok ()
  | insertJob .., o | selectJob _, o | selectJobs, o | updateStatus .., o =>
    (o.rows.mapM JobRow.ofTuple?).elim (.error .mistyped) .ok
  | probeJob _, o => .ok !o.rows.isEmpty
  | deleteJob _, o | deleteWorker _, o => .ok o.affected
  | insertWorker .., o | selectWorker _, o | selectWorkers _, o | updateWorkerPhase .., o =>
    (o.rows.mapM WorkerRow.ofTuple?).elim (.error .mistyped) .ok

/-- The answer to a statement, and the tables after it. -/
def Database.answer (s : Statement) (db : Database) : s.Answer × Database :=
  match s.parameters.findSome? Parameter.refusal? with
  | some refusal => (.error refusal, db)
  | none =>
    match db.query s.sql s.parameters with
    | .ok (outcome, after) => (s.receive outcome, after)
    | .error refusal => (.error refusal, db)

end JobOperator.Relational
