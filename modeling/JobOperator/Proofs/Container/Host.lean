import JobOperator.Proofs.Json.Survival
import JobOperator.Proofs.Launcher.Discipline
import JobOperator.Proofs.Text.Decoding
import JobOperator.Rehearsal.Host

/-!
# What the host tells

The operator reads from the end of a command line what the host has to tell. Left to itself, the
host tells the truth, and it is understood.

* `ContainerState.Tells`: which phase a status and an exit code tell, spelled out.
  `ContainerState.tells_iff`: it is the phase that is read off them.
* `ContainerState.Ranged`: the exit code is one that a process can have.
* `Rehearsal.Host.takes`: the command lines that can be handed over. `Rehearsal.Host.execute_taken`
  and `Rehearsal.Host.execute_not_taken`: the host obeys these, and it never hears of the others.
* `Rehearsal.Host.inspected_obey`: of a container, what is read from the report is **its state**,
  whatever words there are in it; and of one that is not there, that it is missing.
* `Rehearsal.Host.obey_run`: a container that is not there is started.
* `Rehearsal.Host.Solid`: a name that a line can tell. `Rehearsal.Host.listed_obey`: no container
  with such a name is missing from the list, whatever other names there are.
-/

namespace JobOperator

open Json

namespace ContainerState

/-- The status, in lower case. -/
def word (s : ContainerState) : String := String.ofList (s.status.toList.map Char.toLower)

/-- A status tells a phase, and that of a container that has ended tells it by the exit code. Upper
and lower case make no difference, and a word that is not among these tells that the container has
not started yet. -/
inductive Tells : ContainerState → Worker.Phase → Prop where
  | alive {s : ContainerState} (word : s.word ∈ ["running", "paused", "stopping"]) :
      s.Tells .running
  | completed {s : ContainerState} (word : s.word ∈ ["exited", "stopped"])
      (zero : s.exitCode = 0) : s.Tells .succeeded
  | crashed {s : ContainerState} (word : s.word ∈ ["exited", "stopped"])
      (nonzero : s.exitCode ≠ 0) : s.Tells .failed
  | doomed {s : ContainerState} (word : s.word ∈ ["dead", "removing"]) : s.Tells .failed
  | unstarted {s : ContainerState} (word : s.word ∉ ["running", "paused", "stopping", "exited",
      "stopped", "dead", "removing"]) : s.Tells .pending

/-- The exit code is a number of 32 bits. -/
def Ranged (s : ContainerState) : Prop :=
  Int32.minValue.toInt ≤ s.exitCode ∧ s.exitCode ≤ Int32.maxValue.toInt

instance (s : ContainerState) : Decidable s.Ranged :=
  inferInstanceAs (Decidable (_ ∧ _))

variable {s : ContainerState}

/-- Every state tells the phase that is read off it. -/
theorem tells_workerPhase (s : ContainerState) : s.Tells s.workerPhase := by
  unfold workerPhase
  split
  · next h => exact .alive (by simp [word, h])
  · next h => exact .alive (by simp [word, h])
  · next h => exact .alive (by simp [word, h])
  · next h =>
    split
    · next hzero => exact .completed (by simp [word, h]) hzero
    · next hcode => exact .crashed (by simp [word, h]) hcode
  · next h =>
    split
    · next hzero => exact .completed (by simp [word, h]) hzero
    · next hcode => exact .crashed (by simp [word, h]) hcode
  · next h => exact .doomed (by simp [word, h])
  · next h => exact .doomed (by simp [word, h])
  · next h₁ h₂ h₃ h₄ h₅ h₆ h₇ => exact .unstarted (by simp_all [word])

/-- No state tells two phases. -/
theorem Tells.unique {phase phase' : Worker.Phase} (h : s.Tells phase) (h' : s.Tells phase') :
    phase = phase' := by
  cases h <;> cases h' <;> first | rfl | grind

/-- **The phase that is read off a state is the one that its status and its exit code tell.** -/
theorem tells_iff {phase : Worker.Phase} : s.Tells phase ↔ s.workerPhase = phase :=
  ⟨fun h => (tells_workerPhase s).unique h, fun h => h ▸ tells_workerPhase s⟩

/-- A state comes back. -/
theorem ofJson_toJson (h : s.Ranged) : ofJson s.toJson = .ok s := by
  have hread := Schema.read_write preserves_id schema (s.status, s.exitCode, ()) (by decide)
    ⟨Field.lossless_required (readString_str preserves_id _),
      Field.lossless_defaulted (readInt32_int h), trivial⟩
  rw [id] at hread
  rw [ofJson, toJson, hread]
  rfl

theorem plain_toJson (s : ContainerState) : s.toJson.Plain :=
  schema.plain_write ⟨Field.plain_required.mpr .str, Field.plain_defaulted.mpr .int, trivial⟩ _

/-- A report on a container is read as the state of the container. -/
theorem ofInspection?_report (h : s.Ranged) :
    ofInspection? (Utf8.encode (Rehearsal.Host.report s)) = .ok (some s) := by
  have hplain : (entrySchema.write (s, ())).Plain :=
    entrySchema.plain_write ⟨Field.plain_required.mpr plain_toJson, trivial⟩ _
  have hentry : entrySchema.read (entrySchema.write (s, ())) = .ok (s, ()) :=
    Schema.read_write preserves_id entrySchema (s, ()) (by decide)
      ⟨Field.lossless_required (ofJson_toJson h), trivial⟩
  have hreport : readReport (.array [entrySchema.write (s, ())]) = .ok [s] := by
    rw [readReport, readArray, List.mapM_cons, hentry]
    rfl
  have hdecode : decode readReport (Utf8.encode (Rehearsal.Host.report s)) = .ok [s] :=
    (decode_render (.array (List.forall_mem_singleton.mpr hplain)) readReport).trans hreport
  rw [ofInspection?, hdecode]
  rfl

end ContainerState

namespace Podman

/-- A text holds what it begins with. -/
theorem holds_append (part rest : List Char) : holds part (part ++ rest) = true := by
  cases hwhole : part ++ rest with
  | nil =>
    obtain ⟨rfl, -⟩ := List.append_eq_nil_iff.mp hwhole
    rfl
  | cons c cs =>
    have hstart : part.isPrefixOf (c :: cs) = true := by
      rw [List.isPrefixOf_iff_prefix, ← hwhole]
      exact List.prefix_append ..
    rw [holds, hstart, Bool.true_or]

theorem holds_append_left (part before text : List Char) (h : holds part text = true) :
    holds part (before ++ text) = true := by
  induction before with
  | nil => exact h
  | cons c before ih => rw [List.cons_append, holds, ih, Bool.or_true]

/-- Whatever the name of a container is, the host says understandably that it is missing. -/
theorem saysMissing_missing (name : String) :
    saysMissing ("Error: no such container " ++ name) = true := by
  have htext : ("Error: no such container " ++ name).toList.map Char.toLower =
      "error: ".toList ++ ("no such container".toList ++
        (' ' :: name.toList.map Char.toLower)) := by
    rw [String.toList_append, List.map_append]
    rfl
  have hholds := holds_append_left "no such container".toList "error: ".toList _
    (holds_append "no such container".toList (' ' :: name.toList.map Char.toLower))
  rw [saysMissing, htext, hholds, Bool.true_or]

end Podman

namespace Rehearsal.Host

open Podman (inspectArguments runArguments removeArguments listArguments)

variable {h : Host} {name : String} {worker : Worker} {arguments : Podman.Invocation}
  {containers : Table ContainerState}

/-! ## What can be handed over -/

/-- All arguments can be handed over to the host's program. -/
def takes (arguments : Podman.Invocation) : Bool := arguments.all passable

/-- A host for which nothing is scripted obeys a command line that can be handed over. -/
theorem execute_taken (htakes : takes arguments) : execute arguments { containers } =
    ({ containers, executed := [arguments] } : Host).obey arguments := by
  rw [takes] at htakes
  rw [execute, htakes]
  rfl

/-- A command line that cannot be handed over is not executed. -/
theorem execute_not_taken (htakes : ¬ takes arguments) :
    execute arguments { containers } = (.notExecuted, { containers }) := by
  rw [takes, Bool.not_eq_true] at htakes
  rw [execute, htakes]
  rfl

/-- Where the words of a command can be handed over, the last argument decides. -/
theorem takes_concat (words : Podman.Invocation) (hwords : words.all passable) (name : String) :
    takes (words ++ [name]) = passable name := by
  rw [takes, List.all_append, hwords, Bool.true_and, List.all_cons, List.all_nil, Bool.and_true]

theorem takes_inspectArguments (name : String) :
    takes (inspectArguments name) = passable name :=
  takes_concat ["inspect", "--type", "container"] (by decide +kernel) name

theorem takes_removeArguments (name : String) : takes (removeArguments name) = passable name :=
  takes_concat ["rm", "-f"] (by decide +kernel) name

theorem takes_listArguments : takes listArguments := by decide +kernel

/-! ## One container -/

/-- **What is read of a container is its state.** -/
theorem inspected_obey (ranged : ∀ state, h.containers.get? name = some state → state.Ranged) :
    Podman.inspected name (h.obey (inspectArguments name)).1 = .ok (h.containers.get? name) := by
  rw [inspectArguments, obey]
  cases hget : h.containers.get? name with
  | some state =>
    have hread := ContainerState.ofInspection?_report (ranged state hget)
    show Podman.inspected name (success (report state)) = _
    rw [success, Podman.inspected, hread]
  | none =>
    have hstderr : Utf8.decodeLossy (Utf8.encode ("Error: no such container " ++ name)) =
        "Error: no such container " ++ name := Utf8.decodeLossy_encode _
    show (if Podman.saysMissing (Utf8.decodeLossy (Utf8.encode _)) then _ else _) = _
    rw [hstderr, Podman.saysMissing_missing, if_pos rfl]

/-- Who looks at a container changes nothing. -/
theorem obey_inspect : (h.obey (inspectArguments name)).2 = h := by
  rw [inspectArguments, obey]
  split <;> rfl

/-- A container that is not there is started. -/
theorem obey_run (absent : h.containers.get? worker.name = none) :
    h.obey (runArguments worker) = (success "",
      { h with containers := h.containers.insert worker.name ⟨"running", 0⟩ }) := by
  show (if h.containers.contains worker.name then _ else _) = _
  rw [Table.contains, absent]
  rfl

/-! ## All containers -/

/-- A name that a line can tell. -/
structure Solid (name : String) : Prop where
  ne_empty : name ≠ ""
  not_blank : ∀ c ∈ name.toList, Text.isBlank c = false

/-- **No container is missing from the list**, if its name can be told. -/
theorem listed_obey (h : Host) : ∃ names, Podman.listed (h.obey listArguments).1 = .ok names ∧
    ∀ name, Solid name → h.containers.contains name → name ∈ names := by
  let text := String.join (h.containers.keys.map (· ++ "\n"))
  refine ⟨((Text.split '\n' text).map Text.trim).filter (· ≠ ""), ?_, fun name solid hmem => ?_⟩
  · show Podman.listed (success text) = _
    rw [success, Podman.listed, Utf8.decodeLossy_encode]
  · have hline : name.toList ∈ h.containers.keys.map String.toList := by
      obtain ⟨state, hstate⟩ := Option.isSome_iff_exists.mp hmem
      exact List.mem_map_of_mem (List.mem_map.mpr ⟨_, Table.mem_toList_iff.mpr hstate, rfl⟩)
    have hbreak : '\n' ∉ name.toList := fun hmem => nomatch solid.not_blank _ hmem
    have htext : text.toList = (h.containers.keys.map String.toList).flatMap (· ++ ['\n']) := by
      rw [String.toList_join, List.flatMap_map, List.flatMap_map]
      exact List.flatMap_congr fun name _ => String.toList_append ..
    have hpiece : name ∈ Text.split '\n' text := by
      rw [Text.split, htext]
      exact List.mem_map.mpr ⟨_, Text.mem_pieces_flatMap hline hbreak, String.ofList_toList⟩
    have htrim : Text.trim name = name := Text.trim_of_not_blank solid.not_blank
    refine List.mem_filter.mpr ⟨List.mem_map.mpr ⟨name, hpiece, htrim⟩, ?_⟩
    exact decide_eq_true solid.ne_empty

end Rehearsal.Host

end JobOperator
