import JobOperator.Text.Blank
import JobOperator.Text.Digits

/-!
# SQL

The part of SQL that the store's statements and migrations are written in. A text is read back as a
command.

* `Relational.Sql.scan`: the tokens of a text. Words have no case.
* `Relational.Sql.Expression`, `Relational.Sql.Condition`, `Relational.Sql.Command`: what a text
  says. Tables and columns go by name, and bound parameters by number.
* `Relational.Sql.parse`, `Relational.Sql.arity`: the command in a text, and how many parameters
  it takes.
-/

namespace JobOperator.Relational.Sql

/-! ## Tokens -/

/-- What a text is made of. -/
inductive Token where
  | word (w : String)
  | number (n : Nat)
  /-- `$1`, `$2` and so on -/
  | placeholder (n : Nat)
  | sign (c : Char)
  deriving DecidableEq, Repr

/-- A character of a word, a number or a placeholder. -/
def isWordChar (c : Char) : Bool := c.isAlphanum || c = '_' || c = '$'

/-- The token that a run of such characters is. -/
def Token.ofRun : List Char → Token
  | '$' :: digits => (Digits.natural? digits).elim (.sign '$') placeholder
  | run => (Digits.natural? run).elim (word (.ofList (run.map Char.toLower))) number

/-- The tokens of a text. `run` is the run that is being read, its last character first. -/
def scan (run : List Char) : List Char → List Token
  | [] => finished
  | c :: cs =>
    if isWordChar c then scan (c :: run) cs
    else finished ++ (if Text.isBlank c then [] else [.sign c]) ++ scan [] cs
where
  /-- the run, if there is one -/
  finished : List Token := if run.isEmpty then [] else [.ofRun run.reverse]

/-- The tokens of a whole text. -/
def tokens (text : String) : List Token := scan [] text.toList

/-- The greatest number of a placeholder. -/
def greatest (ts : List Token) : Nat :=
  ts.foldl (fun n t => match t with | .placeholder k => max n k | _ => n) 0

/-- How many parameters a text takes. -/
def arity (text : String) : Nat := greatest (tokens text)

/-! ## Commands -/

/-- The type of a column, or of a cast. -/
inductive ColumnType where
  | varchar (width : Option Nat)
  | text
  | uuid
  | integer
  | bigint
  | timestamptz
  | jsonb
  deriving DecidableEq, Repr

/-- `REFERENCES`, with or without `ON DELETE CASCADE`. -/
structure Reference where
  table : String
  column : String
  cascade : Bool
  deriving DecidableEq, Repr

/-- A column of a table. -/
structure Column where
  name : String
  type : ColumnType
  /-- `NOT NULL` -/
  required : Bool := false
  /-- `PRIMARY KEY` -/
  key : Bool := false
  /-- `DEFAULT` -/
  default : Option Nat := none
  reference : Option Reference := none
  deriving DecidableEq, Repr

/-- What a row and the parameters give a value to. -/
inductive Expression where
  | column (name : String)
  | bound (number : Nat)
  | literal (n : Nat)
  | sum (a b : Expression)
  | cast (a : Expression) (type : ColumnType)
  deriving DecidableEq, Repr

/-- What may hold of a row. -/
inductive Condition where
  | equal (a b : Expression)
  | isNull (a : Expression)
  | and (p q : Condition)
  | or (p q : Condition)
  deriving DecidableEq, Repr

/-- `SELECT`. -/
structure Query where
  outputs : List Expression
  table : String
  condition : Option Condition := none
  /-- the column of `ORDER BY` -/
  order : Option String := none
  deriving DecidableEq, Repr

/-- The rows that `INSERT` is given. -/
inductive Source where
  | values (row : List Expression)
  | query (q : Query)
  deriving DecidableEq, Repr

/-- A command. A table or an index is created if it does not exist. -/
inductive Command where
  | createTable (table : String) (columns : List Column)
  | createIndex (table column : String)
  | insert (table : String) (columns : List String) (source : Source) (returning : List Expression)
  | select (q : Query)
  | update (table : String) (changes : List (String × Expression)) (condition : Option Condition)
      (returning : List Expression)
  | delete (table : String) (condition : Option Condition)
  deriving DecidableEq, Repr

/-! ## Reading -/

/-- A reader of tokens. -/
abbrev Parser (α : Type) : Type := StateT (List Token) Option α

variable {α β : Type}

/-- The next token, if it is one that is wanted. -/
def next (f : Token → Option α) : Parser α
  | [] => none
  | t :: ts => (f t).map (·, ts)

/-- A sign. -/
def sign (c : Char) : Parser Unit := next fun t => if t = .sign c then some () else none

/-- Words that stand for themselves. -/
def keywords (ws : List String) : Parser Unit :=
  ws.forM fun w => next fun t => if t = .word w then some () else none

/-- Words that name nothing. -/
def reserved : List String :=
  ["and", "as", "create", "default", "from", "group", "in", "into", "is", "limit", "not", "null",
    "on", "or", "order", "primary", "references", "returning", "select", "table", "where"]

/-- A name. -/
def name : Parser String :=
  next fun | .word w => if w ∈ reserved then none else some w | _ => none

/-- A number. -/
def number : Parser Nat := next fun | .number n => some n | _ => none

/-- What may be left out. -/
def optional (p : Parser α) : Parser (Option α) := some <$> p <|> pure none

/-- As many as there are, but at most `fuel`. -/
def many (p : Parser α) (fuel : Nat) : Parser (List α) :=
  match fuel with
  | 0 => pure []
  | fuel + 1 => (do return (← p) :: (← many p fuel)) <|> pure []

/-- One or more, with something between them. -/
def separated (separator : Parser Unit) (p : Parser α) : Parser (List α) := do
  let first ← p
  let rest ← many (do separator; p) (← get).length
  return first :: rest

/-- One or more, with an operator between them that groups to the left. -/
def chain (operator : Parser Unit) (combine : α → α → α) (p : Parser α) : Parser α := do
  let first ← p
  let rest ← many (do operator; p) (← get).length
  return rest.foldl combine first

/-- What stands in parentheses. -/
def parenthesized (p : Parser α) : Parser α := do
  sign '('
  let a ← p
  sign ')'
  return a

/-- One or more, with commas. -/
def list (p : Parser α) : Parser (List α) := separated (sign ',') p

/-- `VARCHAR(253)`, `TEXT` and so on. -/
def columnType : Parser ColumnType :=
  (do keywords ["varchar"]; return .varchar (← optional (parenthesized number)))
  <|> (do keywords ["text"]; return .text)
  <|> (do keywords ["uuid"]; return .uuid)
  <|> (do keywords ["integer"]; return .integer)
  <|> (do keywords ["bigint"]; return .bigint)
  <|> (do keywords ["timestamptz"]; return .timestamptz)
  <|> (do keywords ["jsonb"]; return .jsonb)

/-- What is said of a column after its type. -/
def constraint : Parser (Column → Column) :=
  (do keywords ["not", "null"]; return fun c => { c with required := true })
  <|> (do keywords ["primary", "key"]; return fun c => { c with required := true, key := true })
  <|> (do keywords ["default"]; let n ← number; return fun c => { c with default := some n })
  <|> do
    keywords ["references"]
    let table ← name
    let column ← parenthesized name
    let cascade ← optional (keywords ["on", "delete", "cascade"])
    return fun c => { c with reference := some ⟨table, column, cascade.isSome⟩ }

/-- A column. -/
def column : Parser Column := do
  let name ← name
  let type ← columnType
  let constraints ← many constraint (← get).length
  return constraints.foldl (fun c f => f c) { name, type }

/-- A column's name, a number or a placeholder, the last maybe with a cast. -/
def operand : Parser Expression :=
  Expression.column <$> name
  <|> Expression.literal <$> number
  <|> do
    let a ← Expression.bound <$> next fun | .placeholder n => some n | _ => none
    let type ← optional do sign ':'; sign ':'; columnType
    return type.elim a a.cast

/-- Operands, or a sum of them. -/
def expression : Parser Expression := chain (sign '+') .sum operand

/-- What is asked of one value, or of two. -/
def test : Parser Condition := do
  let a ← expression
  (do keywords ["is", "null"]; return .isNull a) <|> (do sign '='; return .equal a (← expression))

/-- A condition. `AND` binds tighter than `OR`. -/
def condition : Parser Condition :=
  chain (keywords ["or"]) .or (chain (keywords ["and"]) .and test)

/-- `WHERE`. -/
def where? : Parser (Option Condition) := optional do keywords ["where"]; condition

/-- `RETURNING`. -/
def returning : Parser (List Expression) :=
  (do keywords ["returning"]; list expression) <|> pure []

/-- `SELECT`. -/
def query : Parser Query := do
  keywords ["select"]
  let outputs ← list expression
  keywords ["from"]
  let table ← name
  let condition ← where?
  let order ← optional do
    keywords ["order", "by"]
    let column ← name
    let _ ← optional (keywords ["asc"])
    return column
  return { outputs, table, condition, order }

/-- The rows that `INSERT` is given. -/
def source : Parser Source :=
  (do keywords ["values"]; Source.values <$> parenthesized (list expression))
  <|> Source.query <$> query

/-- A command. -/
def command : Parser Command :=
  (do
    keywords ["create", "table", "if", "not", "exists"]
    return .createTable (← name) (← parenthesized (list column)))
  <|> (do
    keywords ["create", "index", "if", "not", "exists"]
    let _ ← name
    keywords ["on"]
    return .createIndex (← name) (← parenthesized name))
  <|> (do
    keywords ["insert", "into"]
    return .insert (← name) (← parenthesized (list name)) (← source) (← returning))
  <|> Command.select <$> query
  <|> (do
    keywords ["update"]
    let table ← name
    keywords ["set"]
    let changes ← list do
      let column ← name
      sign '='
      return (column, ← expression)
    return .update table changes (← where?) (← returning))
  <|> do
    keywords ["delete", "from"]
    return .delete (← name) (← where?)

/-- The command that tokens are, if they are one. -/
def Command.ofTokens (ts : List Token) : Option Command :=
  match command ts with
  | some (c, []) => some c
  | _ => none

/-- The command that a text is, if it is one. -/
def parse (text : String) : Option Command := Command.ofTokens (tokens text)

example : parse "SELECT 1 FROM jobs WHERE name = $1" = some (.select
    { outputs := [.literal 1], table := "jobs"
      condition := some (.equal (.column "name") (.bound 1)) }) := by decide +kernel

end JobOperator.Relational.Sql
