import JobOperator.Decimal.Double
import JobOperator.Decimal.Literal
import JobOperator.Job.Basic
import JobOperator.Text.Blank

/-!
# Amounts of processor and memory

The limits of a job are texts like `500m` and `2Gi`. The container host takes a
number of processors and an amount of memory with a one-letter unit. A text that is
neither is no limit.

* `Quantity.processors?`: thousandths with an `m`, or a number of processors.
* `Quantity.memory?`: a whole number with a unit.
-/

namespace JobOperator.Quantity

open Digits (isDigit)

/-- The text in front of a last character. -/
def before? (last : Char) (s : String) : Option String :=
  let cs := s.toList
  if cs.getLast? = some last then some (String.ofList cs.dropLast) else none

/-- Thousandths of a processor as a number of processors. -/
def ofThousandths (n : Nat) : String := ((Double.ofRatio n 1).divide 1000).render

/-- A number of processors as the container host takes it. This is `cpu_quantity`. -/
def processors? (quantity : String) : Option String :=
  let quantity := Text.trim quantity
  match before? 'm' quantity with
  | some thousandths => (Digits.unsigned? UInt64.size thousandths).map ofThousandths
  | none =>
    match Literal.parse? quantity with
    | some literal => if literal.positive then some quantity else none
    | none => none

/-- The container host's letter for a unit of memory. -/
def memoryUnit? : String → Option String
  | "" => some "b"
  | "Ki" | "K" | "k" => some "k"
  | "Mi" | "M" => some "m"
  | "Gi" | "G" => some "g"
  | _ => none

/-- An amount of memory as the container host takes it. This is `memory_quantity`. -/
def memory? (quantity : String) : Option String := do
  let cs := (Text.trim quantity).toList
  let amount ← (Digits.natural? (cs.takeWhile isDigit)).filter (· < UInt64.size)
  let unit ← memoryUnit? (String.ofList (cs.dropWhile isDigit))
  return toString amount ++ unit

example : processors? "1500m" = some "1.5" ∧ processors? " +2 " = some "+2" := by decide +kernel
example : processors? "0" = none ∧ processors? "1e-400" = none := by decide +kernel
example : memory? "2Gi" = some "2g" ∧ memory? "2 Gi" = none := by decide +kernel

end JobOperator.Quantity
