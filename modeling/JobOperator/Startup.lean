import JobOperator.Relational.Statement
import JobOperator.Settings
import JobOperator.Text.Pieces

/-!
# Starting up

The operator reads its settings, checks them, sets up its database if it has one, and
takes the address it listens at. It starts only if all of this succeeds; otherwise it
ends with a report of what went wrong and why.

* `Startup.Error`: why the operator does not start.
* `Startup.start`: the script of a start.
* `Startup.describe`: a mishap and its causes as a text.
-/

namespace JobOperator.Startup

open Relational (SqlScript Refusal)

/-- Why an address cannot be listened at. -/
inductive BindError where
  /-- there is no colon in it -/
  | noColon
  /-- what follows the colon is no number of 16 bits -/
  | badNumber
  /-- nothing stands before the colon -/
  | noHost
  deriving DecidableEq, Repr

/-- The wording of a refusal. -/
def BindError.message : BindError → String
  | noColon => "invalid socket address"
  | badNumber => "invalid port value"
  | noHost => "failed to lookup address information: Name or service not known"

/-- Splits an address at its last colon, into a host and a number. -/
def hostAndNumber? (address : String) : Option (List Char × List Char) :=
  let fromEnd := address.toList.reverse
  match fromEnd.dropWhile (· ≠ ':') with
  | ':' :: host => some (host.reverse, (fromEnd.takeWhile (· ≠ ':')).reverse)
  | _ => none

/-- Checks an address to listen at. -/
def checkAddress (address : String) : Except BindError Unit :=
  match hostAndNumber? address with
  | none => .error .noColon
  | some (host, number) =>
    if (Digits.unsigned? UInt16.size (String.ofList number)).isNone then .error .badNumber
    else if host.isEmpty then .error .noHost
    else .ok ()

/-- Why the operator does not start. -/
inductive Error where
  | unreadable (cause : UnknownRuntime)
  | invalid (cause : Settings.Invalid)
  | noDatabase
  | notMigrated (cause : Refusal)
  | notBound (address : String) (cause : BindError)
  deriving DecidableEq, Repr

namespace Error

/-- What went wrong. -/
def message : Error → String
  | unreadable _ => "Failed to load configuration"
  | invalid _ => "Invalid configuration"
  | noDatabase => "Failed to create database pool"
  | notMigrated _ => "Failed to run database migrations"
  | notBound address _ => "Failed to bind to " ++ address

/-- Why it went wrong, from the nearest cause to the first. -/
def causes : Error → List String
  | unreadable cause => [cause.message]
  | invalid cause => [cause.message]
  | noDatabase => ["pool timed out while waiting for an open connection"]
  | notMigrated cause => [cause.text, cause.message]
  | notBound _ cause => [cause.message]

end Error

/-- Writes a text behind `first`, and each of its further lines behind `next`. -/
def indented (first next text : String) : String :=
  first ++ ("\n" ++ next).intercalate (Text.split '\n' text)

/-- A cause behind its number. -/
def numbered (n : Nat) (cause : String) : String :=
  let number := toString n
  indented (String.ofList (List.replicate (5 - number.length) ' ') ++ number ++ ": ") "       "
    cause

/-- A mishap and its causes as a text. Several causes are numbered. -/
def describe (message : String) (causes : List String) : String :=
  let lines := match causes with
    | [] => []
    | [cause] => ["", "Caused by:", indented "    " "    " cause]
    | causes => "" :: "Caused by:" :: (List.range causes.length).zipWith numbered causes
  "\n".intercalate (("Error: " ++ message) :: lines) ++ "\n"

example : describe "a" ["b\nc", "d"] =
    "Error: a\n\nCaused by:\n    0: b\n       c\n    1: d\n" := by decide +kernel

/-- The report on a start that failed. -/
def Error.report (e : Error) : String := describe e.message e.causes

/-- Reads and checks the settings. -/
def configure (env : Table String) : Except Error Settings := do
  let settings ← (Settings.ofVariables env).mapError .unreadable
  settings.validate.mapError .invalid
  return settings

/-- Takes the address to listen at. -/
def bind (settings : Settings) : Except Error Settings := do
  (checkAddress settings.bindAddress).mapError (.notBound settings.bindAddress)
  return settings

/-- Sets up the database. -/
def prepare (settings : Settings) (reachable : Bool) : SqlScript (Except Error Unit) := do
  if settings.databaseUrl.isNone then return .ok ()
  else if !reachable then return .error .noDatabase
  else return (← Relational.migrate).mapError .notMigrated

/-- Starts up. `reachable` tells whether there is a database where the settings say. This is `main`.
-/
def start (env : Table String) (reachable : Bool) : SqlScript (Except Error Settings) := do
  match configure env with
  | .error e => return .error e
  | .ok settings =>
    match ← prepare settings reachable with
    | .error e => return .error e
    | .ok _ => return bind settings

end JobOperator.Startup
