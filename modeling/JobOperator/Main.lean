import JobOperator.Startup

/-!
# The command line

Tells whether the operator would start. Variables come from the environment, and any
others, such as those that are handed on to workers, as arguments of the form
`NAME=value`, which win over the environment. What is wrong is reported, and the exit
code is one.
-/

namespace JobOperator.Main

/-- The variable that an argument sets. -/
def assignment? (argument : String) : Option (String × String) :=
  match Text.split '=' argument with
  | name :: value :: rest => some (name, "=".intercalate (value :: rest))
  | _ => none

/-- The variables of the environment that are read. -/
def environment : IO (List (String × String)) :=
  Settings.variableNames.filterMapM fun name => return (← IO.getEnv name).map (name, ·)

end JobOperator.Main

open JobOperator in
/-- Reports on a start without a database. -/
def main (arguments : List String) : IO UInt32 := do
  let given := (← Main.environment) ++ arguments.filterMap Main.assignment?
  match Startup.start (.ofList given) false with
  | .done (.error e) =>
    IO.eprint e.report
    return 1
  | _ => return 0
