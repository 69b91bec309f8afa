import JobOperator.Lifecycle.Reconcile
import JobOperator.Store.Memory

/-!
# One invocation at a time

An invocation that has the store to itself, from its beginning to its end. Nobody comes
in between its calls, but any of them may go wrong, before or after it takes effect.

* `Course`: what becomes of a call; a `Visit` is an invocation with the courses that its
  calls take, and `Reconciler.visit` is the store that it leaves behind. It is **calm** if all
  calls are answered (`Visit.calm`).
* `Reconciler.Sequential`: the stores that come about by visits, one after another, while
  clients submit and withdraw jobs and the host reports on workers and loses them.
* `Script.Withstands`: what holds of a script wherever it may be cut short, and of its
  result. The same rules serve for calm visits and for those that are disturbed: whether
  anything goes wrong is a parameter.
-/

namespace JobOperator

/-- What a call that goes wrong comes to. -/
inductive Mishap where
  | transient (reason : String)
  | conflict (job : String) (version : UInt64)
  /-- the invocation is cut short -/
  | crash
  deriving DecidableEq, Repr

/-- The error that is answered. -/
def Mishap.error? : Mishap → Option StoreError
  | transient reason => some (.transient reason)
  | conflict job version => some (.conflict job version)
  | crash => none

/-- What becomes of a call. -/
inductive Course where
  | answered
  /-- it goes wrong before it takes effect -/
  | before (mishap : Mishap)
  /-- it takes effect, and then goes wrong -/
  | after (mishap : Mishap)
  deriving DecidableEq, Repr

/-- The answer to a call that takes a course, and the store after it. -/
def Course.meet (clock : Instant) (call : StoreCall) (m : MemoryStore) :
    Course → Option call.Answer × MemoryStore
  | .answered => (some (m.answer clock call).1, (m.answer clock call).2)
  | .before mishap => (mishap.error?.map .error, m)
  | .after mishap => (mishap.error?.map .error, (m.answer clock call).2)

/-- One invocation. -/
structure Visit where
  /-- what its clock reads -/
  now : Instant
  /-- what the store's clock reads -/
  clock : Instant
  /-- what becomes of its calls, in their order; all further calls are answered -/
  courses : List Course := []
  deriving DecidableEq, Repr

/-- An invocation in which nothing goes wrong. -/
def Visit.calm (now clock : Instant) : Visit where
  now := now
  clock := clock

/-- A call takes the next course. -/
def Visit.meet (clock : Instant) (call : StoreCall) (s : MemoryStore × List Course) :
    Option call.Answer × MemoryStore × List Course :=
  let course := s.2.head?.getD .answered
  ((course.meet clock call s.1).1, (course.meet clock call s.1).2, s.2.tail)

namespace Reconciler

/-- The store that a visit leaves behind. -/
def visit (r : Reconciler) (name : String) (v : Visit) (m : MemoryStore) : MemoryStore :=
  ((r.reconcile name v.now).run (Visit.meet v.clock) (m, v.courses)).2.1

/-- The store after visits, one after another. -/
def visits (r : Reconciler) (name : String) (vs : List Visit) (m : MemoryStore) : MemoryStore :=
  vs.foldl (fun m v => r.visit name v m) m

/-- The stores that come about as long as invocations do not overlap. -/
inductive Sequential (r : Reconciler) : MemoryStore → Prop where
  | empty : Sequential r {}
  | submitted {m} (before : Sequential r m) (submission : Job.Submission) (uid : Uid)
      (createdAt : Instant) : Sequential r (m.createJob (submission.toJob uid createdAt)).2
  | withdrawn {m} (before : Sequential r m) (job : String) : Sequential r (m.deleteJob job).2
  | reported {m} (before : Sequential r m) (worker : String) (phase : Worker.Phase) :
      Sequential r (m.updateWorkerPhase worker phase).2
  | lost {m} (before : Sequential r m) (worker : String) : Sequential r (m.deleteWorker worker).2
  | visited {m} (before : Sequential r m) (name : String) (v : Visit) :
      Sequential r (r.visit name v m)

theorem Sequential.visits {r : Reconciler} {m : MemoryStore} (h : r.Sequential m) (name : String)
    (vs : List Visit) : r.Sequential (r.visits name vs m) := by
  induction vs generalizing m with
  | nil => exact h
  | cons v vs ih => exact ih (h.visited name v)

end Reconciler

/-! ## What a script withstands -/

/-- The error of a call that has gone wrong. -/
def StoreError.isMishap (e : StoreError) : Bool := e.isTransient || e.isConflict

theorem StoreError.isMishap_of_isTransient {e : StoreError} (h : e.isTransient) : e.isMishap := by
  unfold isMishap
  rw [h]
  rfl

theorem Mishap.isMishap_of_error? {mishap : Mishap} {e : StoreError}
    (h : mishap.error? = some e) : e.isMishap := by
  cases mishap with
  | transient | conflict =>
    obtain rfl := Option.some.inj h
    rfl
  | crash => cases h

/-- What has gone wrong is not that there is no record. -/
theorem StoreError.not_isNotFound {e : StoreError} (h : e.isMishap) : ¬ e.isNotFound := by
  cases e with
  | notFound | alreadyExists => cases h
  | conflict | transient => exact nofun

/-- What has gone wrong is not that a name is taken. -/
theorem StoreError.not_isAlreadyExists {e : StoreError} (h : e.isMishap) :
    ¬ e.isAlreadyExists := by
  cases e with
  | notFound | alreadyExists => cases h
  | conflict | transient => exact nofun

namespace Script

variable {α β : Type}

/-- Wherever the script is cut short, the store is safe, and if it comes to its end, the store
and the result are as the postcondition says. Calls go wrong only if it is `rough`. -/
def Withstands (rough : Prop) (clock : Instant) (safe : MemoryStore → Prop)
    (post : α → MemoryStore → Prop) : StoreScript α → MemoryStore → Prop
  | .done a, m => post a m
  | .ask call resume, m =>
    safe m ∧ safe (m.answer clock call).2 ∧
      (resume (m.answer clock call).1).Withstands rough clock safe post (m.answer clock call).2 ∧
      (rough → ∀ e : StoreError, e.isMishap →
        (resume (.error e)).Withstands rough clock safe post m ∧
        (resume (.error e)).Withstands rough clock safe post (m.answer clock call).2)

variable {rough : Prop} {clock : Instant} {safe : MemoryStore → Prop}
  {post : α → MemoryStore → Prop} {m : MemoryStore}

/-- A weaker postcondition holds as well. -/
theorem Withstands.imp {post' : α → MemoryStore → Prop} {s : StoreScript α}
    (h : s.Withstands rough clock safe post m) (hpost : ∀ a m, post a m → post' a m) :
    s.Withstands rough clock safe post' m := by
  induction s generalizing m with
  | done a => exact hpost a m h
  | ask call resume ih =>
    obtain ⟨hbefore, hafter, hanswer, hrough⟩ := h
    exact ⟨hbefore, hafter, ih _ hanswer, fun hr e he =>
      ⟨ih _ (hrough hr e he).1, ih _ (hrough hr e he).2⟩⟩

/-- The postcondition of the first script is the precondition of the second. -/
theorem Withstands.bind {next : β → MemoryStore → Prop} {f : α → StoreScript β}
    {s : StoreScript α} (h : s.Withstands rough clock safe post m)
    (hf : ∀ a m, post a m → (f a).Withstands rough clock safe next m) :
    (s >>= f).Withstands rough clock safe next m := by
  induction s generalizing m with
  | done a => exact hf a m h
  | ask call resume ih =>
    obtain ⟨hbefore, hafter, hanswer, hrough⟩ := h
    exact ⟨hbefore, hafter, ih _ hanswer, fun hr e he =>
      ⟨ih _ (hrough hr e he).1, ih _ (hrough hr e he).2⟩⟩

/-- A call, and what follows it in either case. -/
theorem withstands_call {c : StoreCall} {f : c.Answer → StoreScript α} {reply : c.Answer}
    {after : MemoryStore} (h : m.answer clock c = (reply, after)) (hbefore : safe m)
    (hafter : safe after) (hanswer : (f reply).Withstands rough clock safe post after)
    (hmishap : rough → ∀ (e : StoreError) (left : MemoryStore), e.isMishap →
      (left = m ∨ left = after) → safe left → (f (.error e)).Withstands rough clock safe post left) :
    (StoreScript.call c >>= f).Withstands rough clock safe post m := by
  refine ⟨hbefore, ?_⟩
  rw [h]
  exact ⟨hafter, hanswer, fun hr e he =>
    ⟨hmishap hr e m he (.inl rfl) hbefore, hmishap hr e after he (.inr rfl) hafter⟩⟩

/-- Whatever becomes of the calls of a script, it leaves the store safe. -/
theorem Withstands.run {s : StoreScript α} (h : s.Withstands True clock safe post m)
    (hpost : ∀ a m, post a m → safe m) (courses : List Course) :
    safe (s.run (Visit.meet clock) (m, courses)).2.1 := by
  induction s generalizing m courses with
  | done a => exact hpost a m h
  | ask call resume ih =>
    obtain ⟨hbefore, hafter, hanswer, hrough⟩ := h
    unfold Script.run Visit.meet
    dsimp only
    cases courses.head?.getD .answered with
    | answered => exact ih _ hanswer courses.tail
    | before mishap =>
      dsimp only [Course.meet]
      cases herror : mishap.error? with
      | none => exact hbefore
      | some e => exact ih _ (hrough trivial e (Mishap.isMishap_of_error? herror)).1 courses.tail
    | after mishap =>
      dsimp only [Course.meet]
      cases herror : mishap.error? with
      | none => exact hafter
      | some e => exact ih _ (hrough trivial e (Mishap.isMishap_of_error? herror)).2 courses.tail

/-- If all calls are answered, a script comes to its end. -/
theorem Withstands.run_calm {s : StoreScript α} (h : s.Withstands False clock safe post m) :
    ∃ a m', s.run (Visit.meet clock) (m, []) = (some a, m', []) ∧ post a m' := by
  induction s generalizing m with
  | done a => exact ⟨a, m, rfl, h⟩
  | ask call resume ih => exact ih _ h.2.2.1

end Script

end JobOperator
