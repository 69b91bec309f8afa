import JobOperator.Table
import JobOperator.Time.Moment

/-!
# The queue of jobs to look at

Names wait in the queue until they are due, each with one due time: the earliest that
was asked for. A name that is handed out is busy until it is done, and what is asked
for meanwhile is kept apart until then; so no name is handed out twice at a time, and
no request is lost.

* `WorkQueue`: what waits, what is busy, and what waits behind a busy name.
* `WorkQueue.schedule`, `WorkQueue.popDue`, `WorkQueue.release`: ask for a name, hand
  out names, and be done with one.
* `WorkQueue.nextDue`: when a name that waits is due next.
-/

namespace JobOperator

/-- Names that are to be looked at, with the time from which they are due. -/
structure WorkQueue where
  /-- names that wait -/
  scheduled : Table Moment := ∅
  /-- names that are handed out -/
  busy : Table Unit := ∅
  /-- requests for names that are handed out -/
  deferred : Table Moment := ∅
  deriving DecidableEq, Repr, Inhabited

namespace WorkQueue

/-- Asks for a name in a table of due times. An earlier request wins over a later
one. -/
def request (waiting : Table Moment) (name : String) (due : Moment) : Table Moment :=
  waiting.insert name <| match waiting.get? name with
    | some asked => asked.earlier due
    | none => due

/-- Asks for a name. This is `schedule`. -/
def schedule (q : WorkQueue) (name : String) (due : Moment) : WorkQueue :=
  if q.busy.contains name then { q with deferred := request q.deferred name due }
  else { q with scheduled := request q.scheduled name due }

/-- The order in which names are handed out: by due time, and by name where that is
the same. -/
def precedes (a b : String × Moment) : Bool := a.2 < b.2 || (a.2 = b.2 && a.1 ≤ b.1)

/-- The names that are due, in the order in which they are handed out. -/
def dueAt (q : WorkQueue) (now : Moment) : List String :=
  ((q.scheduled.toList.filter fun e => e.2 ≤ now).mergeSort precedes).map (·.1)

/-- A name that waits becomes busy. -/
def handOut (q : WorkQueue) (name : String) : WorkQueue :=
  { q with scheduled := q.scheduled.erase name, busy := q.busy.insert name () }

/-- Hands out up to `limit` names that are due. This is `pop_due`. -/
def popDue (q : WorkQueue) (now : Moment) (limit : Nat) : List String × WorkQueue :=
  let names := (q.dueAt now).take limit
  (names, names.foldl handOut q)

/-- Is done with a name; what was asked for meanwhile counts from now on. This is `done`. -/
def release (q : WorkQueue) (name : String) : WorkQueue :=
  let idle := { q with busy := q.busy.erase name, deferred := q.deferred.erase name }
  match q.deferred.get? name with
  | some due => idle.schedule name due
  | none => idle

/-- The earliest of some moments. -/
def earliest? : List Moment → Option Moment
  | [] => none
  | t :: ts => some (ts.foldl Moment.earlier t)

/-- When a name that waits is due next (`next_deadline`). -/
def nextDue (q : WorkQueue) : Option Moment := earliest? q.scheduled.values

/-- The number of busy names (`in_flight`). -/
def inFlight (q : WorkQueue) : Nat := q.busy.size

end WorkQueue

end JobOperator
