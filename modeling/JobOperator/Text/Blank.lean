/-!
# Blank characters

White space in the sense of Unicode's `White_Space` property, and what is left
of a text once the blanks at its ends are cut off. Image names, quantities and
the spaces around a timestamp's parts are all judged by this one class.

* `Text.isBlank`: the class, as the fourteen ranges and points of the standard.
* `Text.trimStart`, `Text.trim`: a text without blanks at its start, or at
  either end.
-/

namespace JobOperator.Text

/-- A character with Unicode's `White_Space` property. -/
def isBlank (c : Char) : Bool :=
  let n := c.toNat
  (0x09 ≤ n && n ≤ 0x0D) || n == 0x20 || n == 0x85 || n == 0xA0 || n == 0x1680
    || (0x2000 ≤ n && n ≤ 0x200A) || n == 0x2028 || n == 0x2029 || n == 0x202F
    || n == 0x205F || n == 0x3000

/-- The characters from the first one that is not blank. -/
def trimStart (cs : List Char) : List Char := cs.dropWhile isBlank

/-- The characters up to the last one that is not blank. -/
def trimEnd (cs : List Char) : List Char := (trimStart cs.reverse).reverse

/-- A text without the blanks at its ends. -/
def trim (s : String) : String := String.ofList (trimEnd (trimStart s.toList))

/-- A text in which every character is blank; the empty text is one. -/
def allBlank (s : String) : Bool := s.toList.all isBlank

theorem trimStart_of_not_blank {cs : List Char} (h : ∀ c ∈ cs, isBlank c = false) :
    trimStart cs = cs := by
  cases cs with
  | nil => rfl
  | cons c cs => exact List.dropWhile_cons_of_neg (by simp [h c List.mem_cons_self])

/-- Where nothing is blank, there is nothing to cut off. -/
theorem trim_of_not_blank {s : String} (h : ∀ c ∈ s.toList, isBlank c = false) : trim s = s := by
  have hreverse : ∀ c ∈ s.toList.reverse, isBlank c = false :=
    fun c hc => h c (List.mem_reverse.mp hc)
  rw [trim, trimEnd, trimStart_of_not_blank h, trimStart_of_not_blank hreverse,
    List.reverse_reverse, String.ofList_toList]

end JobOperator.Text
