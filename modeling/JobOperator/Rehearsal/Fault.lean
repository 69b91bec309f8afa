import JobOperator.Store.Operation

/-!
# Planned faults

A store that works teaches nothing about one that does not. A rehearsal plans faults
in advance: which call is to fail, how, how often, and whether it takes effect
nevertheless.

* `Rehearsal.Side`: a point before or after a call.
* `Rehearsal.Fault`: a planned fault.
* `Rehearsal.Failure`: how a call fails: with an error, or by a crash of its caller.
* `Rehearsal.meet`: what a call meets at a point, and the faults that are left.
-/

namespace JobOperator.Rehearsal

/-- A point of a call. -/
inductive Side where
  /-- the call has no effect yet -/
  | before
  /-- the call has taken effect -/
  | after
  deriving DecidableEq, Repr

/-- How a call is to fail. -/
inductive Failure where
  | transient
  | conflict
  | notFound
  | alreadyExists
  /-- the caller goes down -/
  | crash
  deriving DecidableEq, Repr

/-- A planned fault. -/
structure Fault where
  operation : StoreOperation
  side : Side
  failure : Failure
  /-- how many calls pass before -/
  skip : Nat
  /-- how many calls fail then -/
  count : Nat
  deriving DecidableEq, Repr

/-- The error of a failure of a call; a crash has none. -/
def Failure.error (call : StoreCall) : Failure → Option StoreError
  | transient => some (.transient "injected")
  | conflict => some (.conflict (call.subject.getD "") call.version)
  | notFound => some (.notFound call.objectKind (call.subject.getD ""))
  | alreadyExists => some (.alreadyExists call.namedKind (call.subject.getD ""))
  | crash => none

/-- The fault is planned for such a point and not yet spent. -/
def Fault.concerns (f : Fault) (operation : StoreOperation) (side : Side) : Bool :=
  f.operation = operation && f.side = side && 0 < f.count

/-- What a call meets at a point. The first fault that concerns the point lets the call
pass or fails it; the faults behind it have to wait. -/
def meet (operation : StoreOperation) (side : Side) : List Fault → Option Failure × List Fault
  | [] => (none, [])
  | f :: faults =>
    if f.concerns operation side then
      if 0 < f.skip then (none, { f with skip := f.skip - 1 } :: faults)
      else (some f.failure, { f with count := f.count - 1 } :: faults)
    else
      let (failure, faults) := meet operation side faults
      (failure, f :: faults)

/-- How many calls can meet faults before all of them are spent. -/
def patience (faults : List Fault) : Nat := faults.foldr (fun f n => f.skip + f.count + n) 0

end JobOperator.Rehearsal
