import JobOperator.Proofs.Relational.Commands
import JobOperator.Proofs.Relational.Server

/-!
# The texts mean what the statements mean

* `Relational.Server.tables`: the two tables as a database has them.
* `Relational.Server.migrate_perform`: the migrations set them up.
* `Relational.Server.conveys`: **the text of every statement, with the parameters that it binds,
  does to the tables what the statement means** (`Relational.Server.execute`), one lemma for each
  kind of statement.
* `Relational.Server.answer_tables`, `Relational.Server.perform_tables`: so a statement is answered
  the same, and so are all statements of a script.
-/

namespace JobOperator.Relational

open Sql (Column Expression Condition)

/-! ## Rows -/

/-- A row of the table of jobs, column by column. -/
def JobRow.tuple (row : JobRow) : Tuple := [
  ("name", .text row.name), ("uid", .uid row.uid),
  ("resource_version", .number row.resourceVersion.toInt), ("created_at", .stamp row.createdAt),
  ("spec", .document row.spec), ("phase", .text row.status.phase),
  ("retries", .number row.status.retries.toInt), ("worker_ref", .ofText? row.status.workerRef),
  ("start_time", .ofStamp? row.status.startTime),
  ("completion_time", .ofStamp? row.status.completionTime),
  ("error_message", .ofText? row.status.errorMessage)]

/-- A row of the table of workers, column by column. -/
def WorkerRow.tuple (row : WorkerRow) : Tuple := [
  ("name", .text row.name), ("owner_name", .text row.ownerName), ("owner_uid", .uid row.ownerUid),
  ("spec", .document row.spec), ("phase", .text row.phase), ("created_at", .stamp row.createdAt)]

theorem Tuple.nullable_text {row : Tuple} {column : String} {value : Option String}
    (h : row.lookup column = some (.ofText? value)) :
    row.nullable column Tuple.text = some value := by
  cases value <;> simp [nullable, text, h, Parameter.ofText?]

theorem Tuple.nullable_stamp {row : Tuple} {column : String} {value : Option Stamp}
    (h : row.lookup column = some (.ofStamp? value)) :
    row.nullable column Tuple.stamp = some value := by
  cases value <;> simp [nullable, stamp, h, Parameter.ofStamp?]

/-- The row of a job is read as it is. -/
theorem JobRow.ofTuple?_tuple (row : JobRow) : ofTuple? row.tuple = some row := by
  have hworkerRef : row.tuple.nullable "worker_ref" Tuple.text = _ := Tuple.nullable_text rfl
  have hstart : row.tuple.nullable "start_time" Tuple.stamp = _ := Tuple.nullable_stamp rfl
  have hcompletion : row.tuple.nullable "completion_time" Tuple.stamp = _ :=
    Tuple.nullable_stamp rfl
  have herror : row.tuple.nullable "error_message" Tuple.text = _ := Tuple.nullable_text rfl
  rw [ofTuple?, hworkerRef, hstart, hcompletion, herror]
  show some (JobRow.mk _ _ (.ofInt row.resourceVersion.toInt) _ _
    ⟨_, .ofInt row.status.retries.toInt, _, _, _, _⟩) = _
  rw [Int64.ofInt_toInt, Int32.ofInt_toInt]

/-- The row of a worker is read as it is. -/
theorem WorkerRow.ofTuple?_tuple (row : WorkerRow) : ofTuple? row.tuple = some row := rfl

theorem JobRow.project_tuple (bound : List Parameter) (row : JobRow) :
    Sql.project bound jobOutputs row.tuple = .ok row.tuple := rfl

theorem WorkerRow.project_tuple (bound : List Parameter) (row : WorkerRow) :
    Sql.project bound workerOutputs row.tuple = .ok row.tuple := rfl

variable {α β : Type} {write : α → Tuple}

theorem ok_bind (a : α) (f : α → Except Refusal β) : (Except.ok a >>= f) = f a := rfl

theorem map_ok (f : α → β) (a : α) : f <$> (Except.ok a : Except Refusal α) = .ok (f a) := rfl

/-- What can be done with every row can be done with all. -/
theorem mapM_tuple {f : Tuple → Except Refusal β} {g : α → β} (h : ∀ a, f (write a) = .ok (g a))
    (as : List α) : (as.map write).mapM f = .ok (as.map g) := by
  have hpure : f ∘ write = fun a => pure (g a) := funext h
  rw [List.mapM_map, hpure, List.mapM_pure]
  rfl

/-- What may fail for a row fails for all. -/
theorem mapM_tuple_map {read : α → β} {f : β → Except Refusal Tuple} {g : α → Except Refusal α}
    (h : ∀ a, f (read a) = write <$> g a) (as : List α) :
    (as.map read).mapM f = List.map write <$> as.mapM g := by
  induction as with
  | nil => rfl
  | cons a as ih =>
    rw [List.map_cons, List.mapM_cons, List.mapM_cons, h, ih]
    cases g a with
    | error => rfl
    | ok b => cases as.mapM g <;> rfl

/-- Rows are cut by what they hold. -/
theorem divide_tuple {p : Tuple → Except Refusal Bool} {q : α → Bool}
    (h : ∀ a, p (write a) = .ok (q a)) (as : List α) :
    divide p (as.map write) = .ok ((as.filter q).map write, (as.filter (! q ·)).map write) := by
  induction as with
  | nil => rfl
  | cons a as ih =>
    rw [List.map_cons, divide, h, ih]
    cases hq : q a <;> simp [hq] <;> rfl

theorem mapM_ofTuple? {read : Tuple → Option α} (h : ∀ a, read (write a) = some a) (as : List α) :
    (as.map write).mapM read = some as := by
  have hpure : read ∘ write = fun a => pure (id a) := funext h
  rw [List.mapM_map, hpure, List.mapM_pure, List.map_id]
  rfl

/-! ## Values in columns -/

theorem Parameter.same_text (a b : String) : same (.text a) (.text b) = decide (a = b) := by
  rw [same, equal]
  cases decide (a = b) <;> rfl

theorem both_some (a b : Bool) : Sql.both (some a) (some b) = some (a && b) := by
  cases a <;> cases b <;> rfl

theorem either_some (a b : Bool) : Sql.either (some a) (some b) = some (a || b) := by
  cases a <;> cases b <;> rfl

theorem Parameter.bigint_toInt (n : Int64) : bigint n.toInt = .ok (.number n.toInt) :=
  if_pos ⟨n.minValue_le_toInt, n.toInt_le⟩

theorem Parameter.integer_toInt (n : Int32) : integer n.toInt = .ok (.number n.toInt) :=
  if_pos ⟨n.minValue_le_toInt, n.toInt_le⟩

section

variable {c : Column}

/-- A column that may be null keeps a text that fits, or nothing. -/
theorem keep_varchar? {width : Nat} (nullable : c.required = false)
    (type : c.type = .varchar (some width)) (value : Option String) :
    c.keep (.ofText? value) = .ofText? <$> value.mapM (fit width) := by
  cases value with
  | none =>
    rw [Parameter.ofText?, Column.keep, nullable]
    rfl
  | some s =>
    show c.type.keep (.text s) = Parameter.ofText? <$> some <$> fit width s
    rw [type, Sql.ColumnType.keep]
    cases fit width s <;> rfl

theorem keep_text? (nullable : c.required = false) (type : c.type = .text)
    (value : Option String) : c.keep (.ofText? value) = .ok (.ofText? value) := by
  cases value with
  | none =>
    rw [Parameter.ofText?, Column.keep, nullable]
    rfl
  | some s =>
    show c.type.keep (.text s) = _
    rw [type]
    rfl

theorem keep_stamp? (nullable : c.required = false) (type : c.type = .timestamptz)
    (value : Option Stamp) : c.keep (.ofStamp? value) = .ok (.ofStamp? value) := by
  cases value with
  | none =>
    rw [Parameter.ofStamp?, Column.keep, nullable]
    rfl
  | some t =>
    show c.type.keep (.stamp t) = _
    rw [type]
    rfl

/-- A version is counted up unless it is the last one. -/
theorem keep_succ (type : c.type = .bigint) (n : Int64) :
    (do c.keep (← Parameter.bigint (n.toInt + 1))) =
      if n = Int64.maxValue then .error .versionOutOfRange else .ok (.number (n + 1).toInt) := by
  have hmax : Int64.maxValue.toInt = 9223372036854775807 := rfl
  by_cases hlast : n = Int64.maxValue
  · rw [if_pos hlast, hlast]
    rfl
  · have hbound := n.toInt_le
    have hne : n.toInt ≠ Int64.maxValue.toInt := fun h => hlast (Int64.toInt_inj.mp h)
    have hlower : Int64.minValue.toInt = -9223372036854775808 := rfl
    have hleast := n.minValue_le_toInt
    have hsucc : (n + 1).toInt = n.toInt + 1 := by
      rw [Int64.toInt_add, show (1 : Int64).toInt = 1 from rfl]
      exact Int.bmod_eq_of_le (by omega) (by omega)
    rw [if_neg hlast, ← hsucc, Parameter.bigint_toInt]
    show c.type.keep (.number (n + 1).toInt) = _
    rw [type]
    exact Parameter.bigint_toInt (n + 1)

end

/-- The row of a job is put in as the table keeps it. -/
theorem JobRow.complete_tuple (row : JobRow) (rows : List Tuple) :
    (Relation.mk "jobs" jobSchema rows).complete row.tuple = tuple <$> row.fit := by
  show (jobSchema.zip (row.tuple.map (·.2))).mapM
    (fun e => return (e.1.name, ← e.1.keep e.2)) = _
  simp only [jobSchema, tuple, List.map_cons, List.map_nil, List.zip_cons_cons, List.zip_nil_left,
    List.mapM_cons, List.mapM_nil]
  rw [keep_varchar? rfl rfl, keep_stamp? rfl rfl, keep_stamp? rfl rfl, keep_text? rfl rfl]
  simp only [Column.keep, Sql.ColumnType.keep, Parameter.bigint_toInt, Parameter.integer_toInt]
  rw [JobRow.fit, StatusColumns.fit, nameWidth, phaseWidth]
  cases Relational.fit 253 row.name <;> cases Relational.fit 20 row.status.phase <;>
    cases row.status.workerRef.mapM (Relational.fit 253) <;> rfl

/-- The row of a worker is put in as the table keeps it. -/
theorem WorkerRow.complete_tuple (row : WorkerRow) (rows : List Tuple) :
    (Relation.mk "workers" workerSchema rows).complete row.tuple = tuple <$> row.fit := by
  show (workerSchema.zip (row.tuple.map (·.2))).mapM
    (fun e => return (e.1.name, ← e.1.keep e.2)) = _
  simp only [workerSchema, tuple, List.map_cons, List.map_nil, List.zip_cons_cons,
    List.zip_nil_left, List.mapM_cons, List.mapM_nil, Column.keep, Sql.ColumnType.keep]
  rw [WorkerRow.fit, nameWidth, phaseWidth]
  cases Relational.fit 253 row.name <;> cases Relational.fit 253 row.ownerName <;>
    cases Relational.fit 20 row.phase <;> rfl

/-- What a write of a status makes of a row. -/
theorem JobRow.change_tuple (row : JobRow) (status : StatusColumns) (rest : List Parameter)
    (rows : List Tuple) :
    (Relation.mk "jobs" jobSchema rows).change (status.parameters ++ rest) statusChanges row.tuple =
      tuple <$> row.written status := by
  show (jobSchema.zip [.ok (.text row.name), .ok (.uid row.uid),
    (do (jobSchema[2]).keep (← Parameter.bigint (row.resourceVersion.toInt + 1))),
    .ok (.stamp row.createdAt), .ok (.document row.spec), (jobSchema[5]).keep (.text status.phase),
    (jobSchema[6]).keep (.number status.retries.toInt),
    (jobSchema[7]).keep (.ofText? status.workerRef),
    (jobSchema[8]).keep (.ofStamp? status.startTime),
    (jobSchema[9]).keep (.ofStamp? status.completionTime),
    (jobSchema[10]).keep (.ofText? status.errorMessage)]).mapM
      (fun e => return (e.1.name, ← e.2)) = _
  rw [keep_varchar? rfl rfl, keep_stamp? rfl rfl, keep_stamp? rfl rfl, keep_text? rfl rfl,
    keep_succ rfl, JobRow.written]
  split
  · rfl
  · simp only [jobSchema, List.zip_cons_cons, List.zip_nil_left, List.mapM_cons, List.mapM_nil,
      List.getElem_cons_succ, List.getElem_cons_zero, Column.keep, Sql.ColumnType.keep, 
      Parameter.integer_toInt, StatusColumns.fit, nameWidth, phaseWidth]
    cases Relational.fit 20 status.phase <;> cases status.workerRef.mapM (Relational.fit 253) <;>
      rfl

/-- What a write of a phase makes of a row. -/
theorem WorkerRow.change_tuple (row : WorkerRow) (phase name : String) (rows : List Tuple) :
    (Relation.mk "workers" workerSchema rows).change [.text phase, .text name]
      [("phase", .bound 1)] row.tuple = tuple <$> row.written phase := by
  show (workerSchema.zip [.ok (.text row.name), .ok (.text row.ownerName), .ok (.uid row.ownerUid),
    .ok (.document row.spec), (workerSchema[4]).keep (.text phase),
    .ok (.stamp row.createdAt)]).mapM (fun e => return (e.1.name, ← e.2)) = _
  simp only [workerSchema, List.zip_cons_cons, List.zip_nil_left, List.mapM_cons, List.mapM_nil,
    List.getElem_cons_succ, List.getElem_cons_zero, Column.keep, Sql.ColumnType.keep,
    WorkerRow.written, phaseWidth]
  cases Relational.fit 20 phase <;> rfl

/-! ## Commands on tables -/

namespace Database

variable {db : Database} {bound : List Parameter} {r : Relation} {table column : String}
  {columns : List Column} {outputs : List Expression} {condition : Option Condition}
  {write out : α → Tuple} {p : α → Bool} {as : List α}

theorem select_tuple (relation : db.relation table = .ok ⟨table, columns, as.map write⟩)
    (meant : ∀ a, Sql.meant bound condition (write a) = .ok (p a))
    (project : ∀ a, Sql.project bound outputs (write a) = .ok (out a)) :
    db.select bound ⟨outputs, table, condition, none⟩ = .ok ((as.filter p).map out) := by
  rw [select, relation, ok_bind, divide_tuple meant]
  exact mapM_tuple project _

theorem select_ordered {le : α → α → Bool}
    (relation : db.relation table = .ok ⟨table, columns, as.map write⟩)
    (meant : ∀ a, Sql.meant bound condition (write a) = .ok (p a))
    (project : ∀ a, Sql.project bound outputs (write a) = .ok (out a))
    (order : ∀ a b, le a b = Tuple.le column (write a) (write b)) :
    db.select bound ⟨outputs, table, condition, some column⟩ =
      .ok (((as.filter p).mergeSort le).map out) := by
  rw [select, relation, ok_bind, divide_tuple meant]
  show (((as.filter p).map write).mergeSort (Tuple.le column)).mapM _ = _
  rw [← List.map_mergeSort fun a _ b _ => order a b]
  exact mapM_tuple project _

/-- Whether a row shares a name with one of others. -/
theorem any_shares {key : α → String} {column' name : String} {row : Tuple}
    (keyed : ∀ a, (write a).lookup column = some (.text (key a)))
    (named : row.lookup column' = some (.text name)) :
    (as.map write).any (Relation.shares · column row column') = as.any (key · = name) := by
  rw [List.any_map]
  refine congrArg (List.any as) (funext fun a => ?_)
  show Relation.shares (write a) column row column' = _
  rw [Relation.shares, keyed, named]
  exact Parameter.same_text (key a) name

/-- A row is put in if its name is free. -/
theorem add_tuple {key : α → String} {a : α}
    (keyed : ∀ b, (columns.any fun c =>
      c.key && Relation.shares (write b) c.name (write a) c.name) = decide (key b = key a)) :
    Relation.add ⟨table, columns, as.map write⟩ (write a) =
      if as.any (key · = key a) then .error (.keyTaken table)
      else .ok ⟨table, columns, (as ++ [a]).map write⟩ := by
  have htaken : ((as.map write).any fun other => columns.any fun c =>
      c.key && Relation.shares other c.name (write a) c.name) = as.any (key · = key a) := by
    rw [List.any_map]
    exact congrArg (List.any as) (funext keyed)
  rw [Relation.add, htaken, List.map_append]
  rfl

/-- Rows are put in one by one. -/
theorem foldlM_add {put : List α → α → Except Refusal (List α)}
    (h : ∀ as a, Relation.add ⟨table, columns, as.map write⟩ (write a) =
      (⟨table, columns, ·.map write⟩) <$> put as a) (new : List α) :
    (new.map write).foldlM Relation.add ⟨table, columns, as.map write⟩ =
      (⟨table, columns, ·.map write⟩) <$> new.foldlM put as := by
  induction new generalizing as with
  | nil => rfl
  | cons a new ih =>
    rw [List.map_cons, List.foldlM_cons, List.foldlM_cons, h]
    cases put as a with
    | error => rfl
    | ok as => exact ih

/-- Rows are put in as the table keeps them, if their keys are free and what they refer to is
there. -/
theorem insert_tuple {names : List String} {source : Sql.Source} {fit : α → Except Refusal α}
    (relation : db.relation table = .ok r) (known : names.forM r.checkColumn = .ok ())
    (given : db.given bound source = .ok (as.map fun a => (write a).map (·.2)))
    (named : ∀ a, (write a).map (·.1) = names)
    (complete : ∀ a, r.complete (write a) = write <$> fit a)
    (project : ∀ a, Sql.project bound outputs (write a) = .ok (write a)) :
    db.run bound (.insert table names source outputs) = do
      let rows ← as.mapM fit
      let after := db.replace (← (rows.map write).foldlM Relation.add r)
      (rows.map write).forM (after.checkReferences r)
      return ({ rows := rows.map write, affected := rows.length }, after) := by
  have harrange : ∀ a, r.arrange names ((write a).map (·.2)) = write <$> fit a := by
    intro a
    have hzip : names.zip ((write a).map (·.2)) = write a := by
      rw [← named a, List.zip_map', List.map_id']
    have hlength : ((write a).map (·.2)).length = names.length := by
      rw [← named a, List.length_map, List.length_map]
    rw [Relation.arrange, if_pos hlength, hzip, complete]
  rw [run, relation, ok_bind, known, ok_bind, given, ok_bind, mapM_tuple_map harrange]
  cases as.mapM fit with
  | error => rfl
  | ok rows =>
    rw [map_ok, ok_bind, ok_bind, mapM_tuple project, List.length_map]
    rfl

/-- The rows that are meant are changed. -/
theorem update_tuple {changes : List (String × Expression)} {change : α → Except Refusal α}
    (relation : db.relation table = .ok ⟨table, columns, as.map write⟩)
    (known : (changes.forM fun e => Relation.checkColumn ⟨table, columns, as.map write⟩ e.1) =
      .ok ())
    (free : (columns.any fun c =>
      (c.key || c.reference.isSome) && (changes.lookup c.name).isSome) = false)
    (meant : ∀ a, Sql.meant bound condition (write a) = .ok (p a))
    (changed : ∀ a, Relation.change ⟨table, columns, as.map write⟩ bound changes (write a) =
      write <$> change a)
    (project : ∀ a, Sql.project bound outputs (write a) = .ok (write a)) :
    db.run bound (.update table changes condition outputs) = do
      let rows ← (as.filter p).mapM change
      return ({ rows := rows.map write, affected := rows.length },
        db.replace ⟨table, columns, (as.filter (! p ·) ++ rows).map write⟩) := by
  rw [run, relation, ok_bind, known, ok_bind, if_neg (Bool.eq_false_iff.mp free),
    divide_tuple meant, ok_bind]
  dsimp only
  rw [mapM_tuple_map changed]
  cases (as.filter p).mapM change with
  | error => rfl
  | ok rows =>
    rw [map_ok, ok_bind, ok_bind, mapM_tuple project, ok_bind, List.length_map, List.map_append]

/-- The rows that are meant go, and so does what refers to them. -/
theorem delete_tuple (relation : db.relation table = .ok ⟨table, columns, as.map write⟩)
    (meant : ∀ a, Sql.meant bound condition (write a) = .ok (p a)) :
    db.run bound (.delete table condition) = do
      let after ← (db.replace ⟨table, columns, (as.filter (! p ·)).map write⟩).mapM fun other =>
        other.columns.foldlM (Relation.release table ((as.filter p).map write)) other
      return ({ affected := (as.filter p).length }, after) := by
  rw [run, relation, ok_bind, divide_tuple meant, ← List.length_map write]
  rfl

end Database

/-! ## Statements -/

namespace Server

/-- The two tables. -/
def tables (d : Server) : Database := [
  ⟨"jobs", jobSchema, d.jobs.map JobRow.tuple⟩,
  ⟨"workers", workerSchema, d.workers.map WorkerRow.tuple⟩]

/-- What is done to the tables is what was meant, and what is read is what it yields. -/
inductive Conveys (s : Statement) :
    Except Refusal (s.Value × Server) → Except Refusal (Outcome × Database) → Prop where
  | refused (refusal : Refusal) : Conveys s (.error refusal) (.error refusal)
  | done {value : s.Value} {outcome : Outcome} (d : Server)
      (received : s.receive outcome = .ok value) :
      Conveys s (.ok (value, d)) (.ok (outcome, d.tables))

variable (d : Server)

theorem received_jobs (rows : List JobRow) :
    ((rows.map JobRow.tuple).mapM JobRow.ofTuple?).elim (.error Refusal.mistyped) .ok =
      Except.ok rows := by
  rw [mapM_ofTuple? JobRow.ofTuple?_tuple]
  rfl

theorem received_workers (rows : List WorkerRow) :
    ((rows.map WorkerRow.tuple).mapM WorkerRow.ofTuple?).elim (.error Refusal.mistyped) .ok =
      Except.ok rows := by
  rw [mapM_ofTuple? WorkerRow.ofTuple?_tuple]
  rfl

/-- A text does to the tables what a statement means. -/
def Faithful (s : Statement) (d : Server) : Prop :=
  Conveys s (execute s d) (d.tables.run s.parameters s.command)

theorem relation_jobs :
    d.tables.relation "jobs" = .ok ⟨"jobs", jobSchema, d.jobs.map JobRow.tuple⟩ := rfl

theorem relation_workers :
    d.tables.relation "workers" = .ok ⟨"workers", workerSchema, d.workers.map WorkerRow.tuple⟩ :=
  rfl

theorem keyed_job (a b : JobRow) : (jobSchema.any fun c =>
    c.key && Relation.shares b.tuple c.name a.tuple c.name) = decide (b.name = a.name) := by
  show (Parameter.same (.text b.name) (.text a.name) || false) = _
  rw [Bool.or_false, Parameter.same_text]

theorem keyed_worker (a b : WorkerRow) : (workerSchema.any fun c =>
    c.key && Relation.shares b.tuple c.name a.tuple c.name) = decide (b.name = a.name) := by
  show (Parameter.same (.text b.name) (.text a.name) || false) = _
  rw [Bool.or_false, Parameter.same_text]

theorem add_worker (workers : List WorkerRow) (row : WorkerRow) :
    Relation.add ⟨"workers", workerSchema, workers.map WorkerRow.tuple⟩ row.tuple =
      (⟨"workers", workerSchema, ·.map WorkerRow.tuple⟩) <$> putWorker workers row := by
  rw [Database.add_tuple (keyed_worker row), putWorker]
  split <;> rfl

theorem faithful_define (what : Definition) : Faithful (.define what) d := by
  cases what <;> exact .done d rfl

theorem faithful_insertJob (name : String) (uid : Uid) (createdAt : Stamp) (spec : Json)
    (status : StatusColumns) : Faithful (.insertJob name uid createdAt spec status) d := by
  let row : JobRow := ⟨name, uid, 1, createdAt, spec, status⟩
  have hgiven : d.tables.given (Statement.insertJob name uid createdAt spec status).parameters
      (.values jobValues) = .ok ([row].map fun row => row.tuple.map (·.2)) := rfl
  have hinsert : d.tables.run _ (.insert "jobs" (jobSchema.map (·.name)) _ _) = _ :=
    Database.insert_tuple d.relation_jobs rfl hgiven (fun _ => rfl) (JobRow.complete_tuple · _)
      (JobRow.project_tuple _)
  rw [Faithful, Statement.command, hinsert, execute, List.mapM_cons]
  cases hfit : row.fit with
  | error refusal =>
    rw [insertJob, hfit]
    exact .refused refusal
  | ok kept =>
    have hadd : Relation.add ⟨"jobs", jobSchema, d.jobs.map JobRow.tuple⟩ kept.tuple = _ :=
      Database.add_tuple (keyed_job kept)
    rw [ok_bind, List.mapM_nil]
    show Conveys _ _ (do let r' ← [kept.tuple].foldlM Relation.add _; _)
    rw [List.foldlM_cons, hadd]
    cases hany : d.jobs.any (·.name = kept.name) with
    | true =>
      rw [insertJob_taken hfit hany]
      exact .refused _
    | false =>
      rw [insertJob_free hfit hany]
      exact .done { d with jobs := d.jobs ++ [kept] } (received_jobs [kept])

theorem faithful_selectJob (name : String) : Faithful (.selectJob name) d := by
  have hselect : d.tables.select [.text name] ⟨jobOutputs, "jobs", some (.binds "name" 1), none⟩ =
      _ := Database.select_tuple d.relation_jobs (fun _ => rfl) (JobRow.project_tuple _)
  rw [Faithful, Statement.command, Statement.parameters, Database.run, hselect]
  exact .done d (received_jobs _)

theorem faithful_selectJobs : Faithful .selectJobs d := by
  have hselect : d.tables.select [] ⟨jobOutputs, "jobs", none, some "created_at"⟩ = .ok
      (((d.jobs.filter fun _ => true).mergeSort (·.createdAt.micros ≤ ·.createdAt.micros)).map _) :=
    Database.select_ordered d.relation_jobs (fun _ => rfl) (JobRow.project_tuple _) fun _ _ => rfl
  have hall : d.jobs.filter (fun _ => true) = d.jobs := List.filter_eq_self.mpr fun _ _ => rfl
  rw [hall] at hselect
  rw [Faithful, Statement.command, Statement.parameters, Database.run, hselect]
  exact .done d (received_jobs _)

theorem faithful_updateStatus (status : StatusColumns) (name : String) (uid : Uid)
    (version : Int64) : Faithful (.updateStatus status name uid version) d := by
  have hmeant : ∀ row : JobRow, Sql.meant
      (status.parameters ++ [.text name, .uid uid, .number version.toInt])
      (some (.and (.and (.binds "name" 7) (.binds "uid" 8)) (.binds "resource_version" 9)))
      row.tuple = .ok (row.meant name uid version) := by
    intro row
    show Except.ok ((Sql.both (Sql.both (some (decide (row.name = name)))
      (some (decide (row.uid = uid))))
      (some (decide (row.resourceVersion.toInt = version.toInt)))).getD false) = _
    rw [both_some, both_some, JobRow.meant]
    simp only [Int64.toInt_inj, Option.getD_some, Bool.and_comm, Bool.and_left_comm]
  have hupdate := Database.update_tuple d.relation_jobs rfl rfl hmeant
    (JobRow.change_tuple · status _ _) (JobRow.project_tuple _)
  rw [Faithful, Statement.command, Statement.parameters, hupdate, execute, writeStatus]
  cases (d.jobs.filter (·.meant name uid version)).mapM (·.written status) with
  | error refusal => exact .refused refusal
  | ok rows => exact .done { d with jobs := _ } (received_jobs rows)

theorem faithful_probeJob (name : String) : Faithful (.probeJob name) d := by
  have hselect : d.tables.select [.text name]
      ⟨[.literal 1], "jobs", some (.binds "name" 1), none⟩ = _ :=
    Database.select_tuple d.relation_jobs (fun _ => rfl) fun _ => rfl
  rw [Faithful, Statement.command, Statement.parameters, Database.run, hselect]
  refine .done d (congrArg Except.ok ?_)
  show (! (((d.jobs.filter fun row => row.name = name).map _).isEmpty)) = _
  rw [List.isEmpty_map, Bool.eq_iff_iff]
  simp

theorem faithful_deleteJob (name : String) : Faithful (.deleteJob name) d := by
  let gone := d.jobs.filter fun row => row.name = name
  have hdelete : d.tables.run [.text name] (.delete "jobs" (some (.binds "name" 1))) = _ :=
    Database.delete_tuple d.relation_jobs (p := (·.name = name)) fun _ => rfl
  have hworkers : (d.workers.map WorkerRow.tuple).filter (fun row =>
      ! (gone.map JobRow.tuple).any (Relation.shares · "name" row "owner_name")) =
        (d.workers.filter fun row => ! gone.any (·.name = row.ownerName)).map WorkerRow.tuple := by
    rw [List.filter_map]
    refine congrArg (List.map WorkerRow.tuple) (List.filter_congr fun row _ => ?_)
    have hany : (gone.map JobRow.tuple).any (Relation.shares · "name" row.tuple "owner_name") =
        gone.any (·.name = row.ownerName) := Database.any_shares (fun _ => rfl) rfl
    exact congrArg not hany
  rw [Faithful, Statement.command, Statement.parameters, hdelete, execute, deleteJob]
  simp only [ne_eq, decide_not]
  show Conveys _ _ (.ok ({ affected := gone.length }, [
    ⟨"jobs", jobSchema, (d.jobs.filter fun row => ! decide (row.name = name)).map JobRow.tuple⟩,
    ⟨"workers", workerSchema, (d.workers.map WorkerRow.tuple).filter fun row =>
      ! (gone.map JobRow.tuple).any (Relation.shares · "name" row "owner_name")⟩]))
  rw [hworkers]
  exact .done ⟨_, _⟩ rfl

/-- The job that a worker refers to has to be there. -/
theorem checkReferences_worker (row : WorkerRow) (rows : List Tuple) :
    d.tables.checkReferences ⟨"workers", workerSchema, rows⟩ row.tuple = d.checkOwner row := by
  have hany : (d.jobs.map JobRow.tuple).any (Relation.shares · "name" row.tuple "owner_name") =
      d.jobs.any (·.name = row.ownerName) := Database.any_shares (fun _ => rfl) rfl
  show ((if (d.jobs.map JobRow.tuple).any (Relation.shares · "name" row.tuple "owner_name") then
    Except.ok () else .error (Refusal.dangling "workers" "owner_name")) >>= fun _ => .ok ()) = _
  rw [hany, checkOwner]
  split <;> rfl

theorem faithful_insertWorker (name : String) (spec : Json) (phase : String) (createdAt : Stamp)
    (ownerName : String) (ownerUid : Uid) :
    Faithful (.insertWorker name spec phase createdAt ownerName ownerUid) d := by
  let s : Statement := .insertWorker name spec phase createdAt ownerName ownerUid
  let raw (owner : JobRow) : WorkerRow := ⟨name, owner.name, owner.uid, spec, phase, createdAt⟩
  let owners := d.jobs.filter fun owner => owner.uid = ownerUid && owner.name = ownerName
  have hmeant : ∀ owner : JobRow, Sql.meant s.parameters
      (some (.and (.binds "name" 5) (.binds "uid" 6))) owner.tuple =
        .ok (owner.uid = ownerUid && owner.name = ownerName) := by
    intro owner
    show Except.ok ((Sql.both (some (owner.name = ownerName : Bool))
      (some (owner.uid = ownerUid : Bool))).getD false) = _
    rw [both_some, Bool.and_comm]
    rfl
  have hselect : d.tables.select s.parameters ownerQuery = .ok (owners.map _) :=
    Database.select_tuple d.relation_jobs hmeant (fun _ => rfl)
  have hgiven : d.tables.given s.parameters (.query ownerQuery) =
      .ok ((owners.map raw).map fun row => row.tuple.map (·.2)) := by
    rw [Database.given, hselect, List.map_map]
    show Except.ok (List.map _ (List.map _ owners)) = _
    rw [List.map_map]
    rfl
  have hinsert : d.tables.run _ (.insert "workers" (workerSchema.map (·.name)) _ _) = _ :=
    Database.insert_tuple d.relation_workers rfl hgiven (fun _ => rfl)
      (WorkerRow.complete_tuple · _) (WorkerRow.project_tuple _)
  rw [Faithful, Statement.command, hinsert, execute, insertWorkers]
  cases (owners.map raw).mapM (·.fit) with
  | error refusal => exact .refused refusal
  | ok kept =>
    rw [ok_bind, ok_bind, Database.foldlM_add add_worker]
    cases kept.foldlM putWorker d.workers with
    | error refusal => exact .refused refusal
    | ok workers =>
      let after : Server := { d with workers }
      have hcheck : (kept.map WorkerRow.tuple).forM (after.tables.checkReferences
          ⟨"workers", workerSchema, d.workers.map WorkerRow.tuple⟩) =
            kept.forM after.checkOwner := by
        rw [List.forM_eq_forM, List.forM_map]
        exact congrArg (forM kept) (funext fun row => after.checkReferences_worker row _)
      rw [ok_bind, map_ok, ok_bind]
      show Conveys _ _ (do
        (kept.map WorkerRow.tuple).forM (after.tables.checkReferences _)
        return (_, after.tables))
      rw [hcheck]
      show Conveys (.insertWorker name spec phase createdAt ownerName ownerUid)
        (do kept.forM after.checkOwner; return (kept, after)) _
      cases kept.forM after.checkOwner with
      | error refusal => exact .refused refusal
      | ok => exact .done after (received_workers kept)

theorem faithful_selectWorker (name : String) : Faithful (.selectWorker name) d := by
  have hselect : d.tables.select [.text name]
      ⟨workerOutputs, "workers", some (.binds "name" 1), none⟩ = _ :=
    Database.select_tuple d.relation_workers (fun _ => rfl) (WorkerRow.project_tuple _)
  rw [Faithful, Statement.command, Statement.parameters, Database.run, hselect]
  exact .done d (received_workers _)

theorem faithful_selectWorkers (owner : Option String) : Faithful (.selectWorkers owner) d := by
  have hmeant : ∀ row : WorkerRow, Sql.meant [.ofText? owner]
      (some (.or (.isNull (.cast (.bound 1) (.varchar none))) (.binds "owner_name" 1))) row.tuple =
        .ok (owner.all (row.ownerName = ·)) := by
    intro row
    cases owner with
    | none => rfl
    | some name =>
      show Except.ok ((Sql.either (some false) (some (row.ownerName = name : Bool))).getD false) = _
      rw [either_some]
      rfl
  have hselect : d.tables.select _ ⟨workerOutputs, "workers", _, some "created_at"⟩ = .ok
      (((d.workers.filter fun row => owner.all (row.ownerName = ·)).mergeSort
        (·.createdAt.micros ≤ ·.createdAt.micros)).map _) :=
    Database.select_ordered d.relation_workers hmeant (WorkerRow.project_tuple _) fun _ _ => rfl
  rw [Faithful, Statement.command, Statement.parameters, Database.run, hselect]
  exact .done d (received_workers _)

theorem faithful_updateWorkerPhase (phase name : String) :
    Faithful (.updateWorkerPhase phase name) d := by
  have hupdate : d.tables.run _ (.update "workers" _ (some (.binds "name" 2)) _) = _ :=
    Database.update_tuple d.relation_workers rfl rfl (p := (·.name = name)) (fun _ => rfl)
      (WorkerRow.change_tuple · phase name _) (WorkerRow.project_tuple _)
  rw [Faithful, Statement.command, Statement.parameters, hupdate, execute, writePhase]
  simp only [ne_eq, decide_not]
  cases (d.workers.filter (·.name = name)).mapM (·.written phase) with
  | error refusal => exact .refused refusal
  | ok rows => exact .done { d with workers := _ } (received_workers rows)

theorem faithful_deleteWorker (name : String) : Faithful (.deleteWorker name) d := by
  have hdelete : d.tables.run [.text name] (.delete "workers" (some (.binds "name" 1))) = _ :=
    Database.delete_tuple d.relation_workers (p := (·.name = name)) fun _ => rfl
  rw [Faithful, Statement.command, Statement.parameters, hdelete, execute, deleteWorker]
  simp only [ne_eq, decide_not]
  exact .done { d with workers := _ } rfl

/-- **The text of every statement, with the parameters that it binds, does to the tables what the
statement means.** -/
theorem conveys (s : Statement) :
    Conveys s (execute s d) (d.tables.query s.sql s.parameters) := by
  rw [Database.query_sql]
  cases s with
  | define what => exact d.faithful_define what
  | insertJob name uid createdAt spec status =>
    exact d.faithful_insertJob name uid createdAt spec status
  | selectJob name => exact d.faithful_selectJob name
  | selectJobs => exact d.faithful_selectJobs
  | updateStatus status name uid version => exact d.faithful_updateStatus status name uid version
  | probeJob name => exact d.faithful_probeJob name
  | deleteJob name => exact d.faithful_deleteJob name
  | insertWorker name spec phase createdAt ownerName ownerUid =>
    exact d.faithful_insertWorker name spec phase createdAt ownerName ownerUid
  | selectWorker name => exact d.faithful_selectWorker name
  | selectWorkers owner => exact d.faithful_selectWorkers owner
  | updateWorkerPhase phase name => exact d.faithful_updateWorkerPhase phase name
  | deleteWorker name => exact d.faithful_deleteWorker name

/-- A statement is answered by its text as by what it means. -/
theorem answer_tables (s : Statement) :
    Database.answer s d.tables = ((answer s d).1, (answer s d).2.tables) := by
  rw [Database.answer, answer]
  cases s.parameters.findSome? Parameter.refusal? with
  | some refusal => rfl
  | none =>
    have h := d.conveys s
    generalize execute s d = meaning at h
    generalize d.tables.query s.sql s.parameters = done at h
    cases h with
    | refused refusal => rfl
    | done d received =>
      dsimp only
      rw [received]

/-- So are all statements of a script. -/
theorem perform_tables {α : Type} (script : SqlScript α) :
    script.perform Database.answer d.tables =
      ((script.perform answer d).1, (script.perform answer d).2.tables) := by
  induction script generalizing d with
  | done => rfl
  | ask s resume ih =>
    rw [Script.perform, Script.perform, answer_tables]
    exact ih _ _

/-- One definition, and the others. -/
theorem perform_defineAll {what : Definition} {rest : List Definition} {db after : Database}
    {outcome : Outcome} (h : db.run [] what.command = .ok (outcome, after)) :
    (defineAll (what :: rest)).perform Database.answer db =
      (defineAll rest).perform Database.answer after := by
  have hquery : db.query (Statement.define what).sql (Statement.define what).parameters = _ :=
    (db.query_sql _).trans h
  have hanswer : (Relational.execute (.define what)).perform Database.answer db =
      (.ok (), after) := by
    show Database.answer (.define what) db = _
    rw [Database.answer, hquery]
    rfl
  rw [defineAll, Script.perform_bind, hanswer]

/-- **The migrations set up the tables.** -/
theorem migrate_perform : migrate.perform Database.answer [] = (.ok (), ({} : Server).tables) := by
  rw [migrate, perform_defineAll rfl, perform_defineAll rfl, perform_defineAll rfl,
    perform_defineAll rfl]
  rfl

end Server

end JobOperator.Relational
