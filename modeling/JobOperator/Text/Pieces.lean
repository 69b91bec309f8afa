/-!
# The pieces of a text

A text is cut wherever a separator stands. The lines of a report, the segments of a
path and the two sides of an assignment are such pieces.

* `Text.pieces`: what stands between the separators. There is one piece more than
  there are separators, so a text without any is one piece.
* `Text.split`: the same on strings.
-/

namespace JobOperator.Text

/-- What stands between the separators in a text. -/
def pieces (separator : Char) : List Char → List (List Char)
  | [] => [[]]
  | c :: cs =>
    if c = separator then [] :: pieces separator cs
    else match pieces separator cs with
      | piece :: rest => (c :: piece) :: rest
      | [] => [[c]]

/-- The strings between the separators in a string. -/
def split (separator : Char) (s : String) : List String :=
  (pieces separator s.toList).map String.ofList

theorem pieces_ne_nil (separator : Char) (cs : List Char) : pieces separator cs ≠ [] := by
  cases cs with
  | nil => simp [pieces]
  | cons c cs =>
    unfold pieces
    split
    · simp
    · split <;> simp

/-- A text without a separator is one piece. -/
theorem pieces_of_not_mem {separator : Char} {cs : List Char} (h : separator ∉ cs) :
    pieces separator cs = [cs] := by
  induction cs with
  | nil => rfl
  | cons c cs ih =>
    obtain ⟨hc, hcs⟩ := not_or.1 (mt List.mem_cons.2 h)
    simp [pieces, ih hcs, Ne.symm hc]

/-- A text is cut at every separator, and what stands on its two sides is cut for itself. -/
theorem pieces_append_separator (separator : Char) (cs rest : List Char) :
    pieces separator (cs ++ separator :: rest) = pieces separator cs ++ pieces separator rest := by
  induction cs with
  | nil => simp [pieces]
  | cons c cs ih =>
    rw [List.cons_append, pieces, pieces, ih]
    split
    · rfl
    · cases hpieces : pieces separator cs with
      | nil => exact absurd hpieces (pieces_ne_nil separator cs)
      | cons piece more => rfl

/-- A line without a separator is one of the pieces, whatever the other lines hold. -/
theorem mem_pieces_flatMap {separator : Char} {line : List Char} {lines : List (List Char)}
    (hmem : line ∈ lines) (hline : separator ∉ line) :
    line ∈ pieces separator (lines.flatMap (· ++ [separator])) := by
  induction lines with
  | nil => cases hmem
  | cons first lines ih =>
    rw [List.flatMap_cons, List.append_assoc, List.singleton_append, pieces_append_separator]
    rcases List.mem_cons.mp hmem with rfl | hmem
    · rw [pieces_of_not_mem hline]
      exact List.mem_append_left _ (List.mem_singleton.mpr rfl)
    · exact List.mem_append_right _ (ih hmem)

example : split '/' "/api/jobs" = ["", "api", "jobs"] ∧ split '\n' "" = [""] := by decide +kernel

end JobOperator.Text
