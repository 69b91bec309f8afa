/-!
# Scripts

A script is a program that does nothing itself: it asks its surroundings
questions, one at a time, and decides by the answers what to ask next. All that
the operator does to a store, a database or a container host is written as
scripts, so that one text runs against any of them, alone or interleaved with
others, and can be cut short between any two questions.

* `Script Ask Reply α`: the free monad over questions `q : Ask` whose answers have
  the type `Reply q`. A script is a well-founded tree, so it always ends.
* `Script.ask`: the script of one question.
* `Script.run`: a script with its surroundings: a state that every question may
  change. The surroundings may refuse to answer, and that is the end of the run.
* `Script.expand`: each question replaced by a script over other questions.
-/

namespace JobOperator

/-- A program over questions `Ask`, whose answers have the types `Reply`. -/
inductive Script (Ask : Type) (Reply : Ask → Type) (α : Type) where
  /-- the script has ended -/
  | done (result : α)
  /-- the script asks, and goes on with the answer -/
  | ask (question : Ask) (resume : Reply question → Script Ask Reply α)

namespace Script

variable {Ask : Type} {Reply : Ask → Type} {α β γ : Type}

/-- One script after another. -/
protected def bind : Script Ask Reply α → (α → Script Ask Reply β) → Script Ask Reply β
  | .done a, f => f a
  | .ask q resume, f => .ask q fun reply => (resume reply).bind f

instance : Monad (Script Ask Reply) where
  pure := .done
  bind := Script.bind

@[simp] theorem pure_eq (a : α) : (pure a : Script Ask Reply α) = .done a := rfl

@[simp] theorem done_bind (a : α) (f : α → Script Ask Reply β) : (.done a >>= f) = f a := rfl

@[simp] theorem ask_bind (q : Ask) (resume : Reply q → Script Ask Reply α)
    (f : α → Script Ask Reply β) :
    (Script.ask q resume >>= f) = .ask q fun reply => resume reply >>= f := rfl

theorem bind_done (s : Script Ask Reply α) : s >>= .done = s := by
  induction s with
  | done => rfl
  | ask q resume ih => exact congrArg (Script.ask q) (funext ih)

theorem bind_assoc (s : Script Ask Reply α) (f : α → Script Ask Reply β)
    (g : β → Script Ask Reply γ) : s >>= f >>= g = s >>= fun a => f a >>= g := by
  induction s with
  | done => rfl
  | ask q resume ih => exact congrArg (Script.ask q) (funext ih)

instance : LawfulMonad (Script Ask Reply) :=
  LawfulMonad.mk' _ bind_done (fun _ _ => rfl) bind_assoc

/-- The script of one question. -/
def request (q : Ask) : Script Ask Reply (Reply q) := .ask q .done

/-- Runs a script in surroundings with a state. The result is `none` if the
surroundings refuse an answer: the script is cut short there. -/
def run {σ : Type} (answer : (q : Ask) → σ → Option (Reply q) × σ) :
    Script Ask Reply α → σ → Option α × σ
  | .done a, s => (some a, s)
  | .ask q resume, s =>
    match answer q s with
    | (some reply, s) => (resume reply).run answer s
    | (none, s) => (none, s)

/-- Runs a script in surroundings that answer every question. -/
def perform {σ : Type} (answer : (q : Ask) → σ → Reply q × σ) :
    Script Ask Reply α → σ → α × σ
  | .done a, s => (a, s)
  | .ask q resume, s => (resume (answer q s).1).perform answer (answer q s).2

/-- Replaces every question by a script that finds its answer. -/
def expand {Ask' : Type} {Reply' : Ask' → Type}
    (find : (q : Ask) → Script Ask' Reply' (Reply q)) : Script Ask Reply α → Script Ask' Reply' α
  | .done a => .done a
  | .ask q resume => find q >>= fun reply => (resume reply).expand find

/-- Running one script after another runs the second where the first left off. -/
theorem perform_bind {σ : Type} (answer : (q : Ask) → σ → Reply q × σ)
    (s : Script Ask Reply α) (f : α → Script Ask Reply β) (state : σ) :
    (s >>= f).perform answer state =
      (f (s.perform answer state).1).perform answer (s.perform answer state).2 := by
  induction s generalizing state with
  | done => rfl
  | ask q resume ih => exact ih _ _

end Script

end JobOperator
