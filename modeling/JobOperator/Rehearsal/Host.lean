import JobOperator.Container.Podman
import JobOperator.Json.Printer

/-!
# A stand-in for the container host

Containers without processes: a table of states that command lines read and write. A
rehearsal can change a state behind the operator's back, and can script what the next
command line of some kind is answered.

* `Rehearsal.Host`: the containers, the scripted answers and the command lines so far.
* `Rehearsal.Host.execute`: what a command line is answered.
-/

namespace JobOperator.Rehearsal

/-- An answer that is scripted in advance. -/
structure ScriptedOutcome where
  /-- the command that is answered so -/
  command : String
  /-- the container that the command has to be about, if that matters -/
  container : Option String
  outcome : Podman.Outcome
  /-- how many commands are answered so -/
  count : Nat
  deriving DecidableEq, Repr

/-- A container host. -/
structure Host where
  /-- the host's program is there -/
  installed : Bool := true
  containers : Table ContainerState := ∅
  scripted : List ScriptedOutcome := []
  /-- the command lines that were executed, the last one first -/
  executed : List Podman.Invocation := []
  deriving DecidableEq, Repr, Inhabited

namespace Host

/-- The length in bytes that an argument must not reach. -/
def longestArgument : Nat := 131072

/-- A text that can be handed over as an argument. -/
def passable (argument : String) : Bool :=
  !argument.toList.contains '\x00' && argument.utf8ByteSize < longestArgument

/-- A command that ends well. -/
def success (stdout : String) : Podman.Outcome := .exited (some 0) (Utf8.encode stdout) []

/-- A command that fails. -/
def failure (stderr : String) : Podman.Outcome := .exited (some 125) [] (Utf8.encode stderr)

/-- The container that a command line is about. -/
def container? : Podman.Invocation → Option String
  | "inspect" :: "--type" :: "container" :: name :: _ => some name
  | "run" :: "-d" :: "--name" :: name :: _ => some name
  | "rm" :: "-f" :: name :: _ => some name
  | _ => none

/-- A scripted answer is meant for a command line. -/
def meantFor (s : ScriptedOutcome) (arguments : Podman.Invocation) : Bool :=
  0 < s.count && arguments.head? = some s.command
    && (s.container.isNone || s.container = container? arguments)

/-- The first scripted answer that is meant for a command line, and what is left of
the script. -/
def scriptedFor (arguments : Podman.Invocation) :
    List ScriptedOutcome → Option Podman.Outcome × List ScriptedOutcome
  | [] => (none, [])
  | s :: scripted =>
    if meantFor s arguments then
      (some s.outcome, { s with count := s.count - 1 } :: scripted)
    else
      let (outcome, scripted) := scriptedFor arguments scripted
      (outcome, s :: scripted)

/-- The report on a container. -/
def report (state : ContainerState) : String :=
  (Json.array [.record [("State", state.toJson)]]).render

/-- What a command line does by itself. -/
def obey (h : Host) : Podman.Invocation → Podman.Outcome × Host
  | "inspect" :: "--type" :: "container" :: name :: _ =>
    match h.containers.get? name with
    | some state => (success (report state), h)
    | none => (failure ("Error: no such container " ++ name), h)
  | "run" :: "-d" :: "--name" :: name :: _ =>
    if h.containers.contains name then
      (failure ("Error: the container name \"" ++ name ++ "\" is already in use"), h)
    else (success "", { h with containers := h.containers.insert name ⟨"running", 0⟩ })
  | "rm" :: "-f" :: name :: _ =>
    (success "", { h with containers := h.containers.erase name })
  | "ps" :: _ => (success (String.join (h.containers.keys.map (· ++ "\n"))), h)
  | _ => (success "", h)

/-- What a command line is answered. -/
def execute (arguments : Podman.Invocation) (h : Host) : Podman.Outcome × Host :=
  if !h.installed || !arguments.all passable then (.notExecuted, h)
  else
    let h := { h with executed := arguments :: h.executed }
    match scriptedFor arguments h.scripted with
    | (some outcome, scripted) => (outcome, { h with scripted })
    | (none, _) => h.obey arguments

end Host

end JobOperator.Rehearsal
