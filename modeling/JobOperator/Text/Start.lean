/-!
# How a text begins

* `Text.after?`: what follows a given beginning.
-/

namespace JobOperator.Text

/-- What follows `start` in a text that begins with it. -/
def after? : (start text : List Char) → Option (List Char)
  | [], text => some text
  | s :: start, c :: text => if s = c then after? start text else none
  | _ :: _, [] => none

theorem after?_eq_some_iff {start text rest : List Char} :
    after? start text = some rest ↔ text = start ++ rest := by
  fun_induction after? start text with
  | case1 text => simp
  | case2 start c text ih => simp [ih]
  | case3 s start c text h =>
    have hc : ¬ c = s := fun hc => h hc.symm
    simp [hc]
  | case4 => simp

/-- A text begins with another one. -/
def beginsWith (start s : String) : Bool := (after? start.toList s.toList).isSome

end JobOperator.Text
