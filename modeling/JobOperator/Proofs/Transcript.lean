import JobOperator.Script

/-!
# Transcripts

What a script has asked and was answered, in order. A script is a tree, and a
transcript is a way down into it; what is left of the script is the tree below.

* `Script.Exchange`: a question with its answer; a transcript is a list of them,
  oldest first.
* `Script.Leads`: answered as the transcript tells, the script goes on as another
  one. Nothing is said of who answered: any reply of the right type will do.
* `Script.Obeys`: every question is asked in accordance with a **rule**, which may
  look at the whole transcript before it, whatever the answers are; and the end of the
  script comes with a postcondition. The rule of sequencing is `Obeys.bind`; that a
  script obeys a rule from its beginning is all that has to be known of any later
  point (`Obeys.leads`, `Leads.rule_of_mem`, `Leads.next`).
* `Script.conduct`: a run in which every question is answered, with its transcript.
-/

namespace JobOperator.Script

variable {Ask : Type} {Reply : Ask → Type} {α β : Type}

/-- A question, and what it was answered. -/
structure Exchange (Ask : Type) (Reply : Ask → Type) where
  question : Ask
  reply : Reply question

/-- Two exchanges about the same question are equal when their replies are. -/
theorem Exchange.reply_inj {q : Ask} {a b : Reply q}
    (h : (⟨q, a⟩ : Exchange Ask Reply) = ⟨q, b⟩) : a = b := by
  cases h
  rfl

/-- With these answers to its questions, the first script goes on as the second. -/
inductive Leads (s : Script Ask Reply α) :
    List (Exchange Ask Reply) → Script Ask Reply α → Prop where
  /-- nothing has been asked yet -/
  | start : Leads s [] s
  /-- one more question has been answered -/
  | answered {log q resume} (before : Leads s log (.ask q resume)) (reply : Reply q) :
      Leads s (log ++ [⟨q, reply⟩]) (resume reply)

/-- A script that is about to ask goes on with the reply. -/
theorem Leads.answer {s s' : Script Ask Reply α} {log : List (Exchange Ask Reply)} {q : Ask}
    {resume : Reply q → Script Ask Reply α} (h : s.Leads log s') (hs : s' = .ask q resume)
    (reply : Reply q) : s.Leads (log ++ [⟨q, reply⟩]) (resume reply) := by
  rw [hs] at h
  exact h.answered reply

/-- What one script leads to may lead on. -/
theorem Leads.trans {s s' s'' : Script Ask Reply α} {log log' : List (Exchange Ask Reply)}
    (h : s.Leads log s') (h' : s'.Leads log' s'') : s.Leads (log ++ log') s'' := by
  induction h' with
  | start => rwa [List.append_nil]
  | answered _ reply ih =>
    rw [← List.append_assoc]
    exact ih.answered reply

/-- What follows the first reply follows the question. -/
theorem Leads.reply {q : Ask} {resume : Reply q → Script Ask Reply α} {reply : Reply q}
    {log : List (Exchange Ask Reply)} {s' : Script Ask Reply α}
    (h : (resume reply).Leads log s') : (Script.ask q resume).Leads (⟨q, reply⟩ :: log) s' :=
  (Leads.start.answered reply).trans h

/-- What follows a script does not matter before its end. -/
theorem Leads.followed {s s' : Script Ask Reply α} {log : List (Exchange Ask Reply)}
    (h : s.Leads log s') (f : α → Script Ask Reply β) : (s >>= f).Leads log (s' >>= f) := by
  induction h with
  | start => exact .start
  | answered _ reply ih => exact ih.answered reply

/-- One script after another leads where the second one does. -/
theorem Leads.bind {s : Script Ask Reply α} {f : α → Script Ask Reply β} {a : α}
    {s' : Script Ask Reply β} {log log' : List (Exchange Ask Reply)} (h : s.Leads log (.done a))
    (h' : (f a).Leads log' s') : (s >>= f).Leads (log ++ log') s' :=
  (h.followed f).trans h'

/-- Whatever the script is answered, it asks by the rule, and it ends as the
postcondition says. `log` is what has been asked before. -/
def Obeys (rule : List (Exchange Ask Reply) → Ask → Prop)
    (post : List (Exchange Ask Reply) → α → Prop) :
    List (Exchange Ask Reply) → Script Ask Reply α → Prop
  | log, .done a => post log a
  | log, .ask q resume => rule log q ∧ ∀ reply, (resume reply).Obeys rule post (log ++ [⟨q, reply⟩])

section Rules

variable {rule : List (Exchange Ask Reply) → Ask → Prop}
  {post : List (Exchange Ask Reply) → α → Prop} {log : List (Exchange Ask Reply)}

@[simp] theorem obeys_done (a : α) :
    (done a : Script Ask Reply α).Obeys rule post log ↔ post log a := Iff.rfl

@[simp] theorem obeys_ask (q : Ask) (resume : Reply q → Script Ask Reply α) :
    (ask q resume).Obeys rule post log ↔
      rule log q ∧ ∀ reply, (resume reply).Obeys rule post (log ++ [⟨q, reply⟩]) := Iff.rfl

/-- A weaker rule is obeyed as well, and leads to a weaker postcondition. -/
theorem Obeys.weaken {rule' : List (Exchange Ask Reply) → Ask → Prop}
    {post' : List (Exchange Ask Reply) → α → Prop} {s : Script Ask Reply α}
    (h : s.Obeys rule post log) (hrule : ∀ log q, rule log q → rule' log q)
    (hpost : ∀ log a, post log a → post' log a) : s.Obeys rule' post' log := by
  induction s generalizing log with
  | done a => exact hpost log a h
  | ask q resume ih =>
    obtain ⟨hq, hr⟩ := h
    exact ⟨hrule log q hq, fun reply => ih reply (hr reply)⟩

/-- A weaker postcondition holds as well. -/
theorem Obeys.imp {post' : List (Exchange Ask Reply) → α → Prop} {s : Script Ask Reply α}
    (h : s.Obeys rule post log) (hpost : ∀ log a, post log a → post' log a) :
    s.Obeys rule post' log :=
  h.weaken (fun _ _ hrule => hrule) hpost

/-- The postcondition of the first script is the precondition of the second. -/
theorem Obeys.bind {next : List (Exchange Ask Reply) → β → Prop} {f : α → Script Ask Reply β}
    {s : Script Ask Reply α} (h : s.Obeys rule post log)
    (hf : ∀ log a, post log a → (f a).Obeys rule next log) : (s >>= f).Obeys rule next log := by
  induction s generalizing log with
  | done a => exact hf log a h
  | ask q resume ih =>
    obtain ⟨hq, hr⟩ := h
    exact ⟨hq, fun reply => ih reply (hr reply)⟩

/-- A rule that is obeyed from the start is still obeyed later on. -/
theorem Obeys.leads {s s' : Script Ask Reply α} (h : s.Obeys rule post [])
    (hl : s.Leads log s') : s'.Obeys rule post log := by
  induction hl with
  | start => exact h
  | answered _ reply ih => exact ih.2 reply

/-- Every question of a transcript was asked by the rule. -/
theorem Leads.rule_of_mem {s s' : Script Ask Reply α} (hl : s.Leads log s')
    (h : s.Obeys rule post []) {before after : List (Exchange Ask Reply)}
    {x : Exchange Ask Reply} (hx : log = before ++ x :: after) : rule before x.question := by
  induction hl generalizing after with
  | start => simp at hx
  | @answered log q resume hl reply ih =>
    rcases List.eq_nil_or_concat after with rfl | ⟨after, y, rfl⟩
    · -- the question is the last one
      obtain ⟨rfl, hlast⟩ := List.append_inj' hx rfl
      obtain rfl := List.singleton_inj.1 hlast
      exact (h.leads hl).1
    · have hx' : log ++ [⟨q, reply⟩] = (before ++ x :: after) ++ [y] := by simpa using hx
      exact ih (List.append_inj' hx' rfl).1

/-- What follows a question of a transcript was asked by the rule as well, or is still to come. -/
theorem Leads.next {s s' : Script Ask Reply α} (hl : s.Leads log s') (h : s.Obeys rule post [])
    {before after : List (Exchange Ask Reply)} {x : Exchange Ask Reply}
    (hx : log = before ++ x :: after) :
    (∃ y rest, after = y :: rest ∧ rule (before ++ [x]) y.question) ∨
      after = [] ∧ s'.Obeys rule post (before ++ [x]) := by
  cases after with
  | nil =>
    rw [hx] at hl
    exact .inr ⟨rfl, h.leads hl⟩
  | cons y rest =>
    rw [List.append_cons] at hx
    exact .inl ⟨y, rest, rfl, hl.rule_of_mem h hx⟩

/-- If nothing may be asked any more, the script has ended. -/
theorem Leads.last {s s' : Script Ask Reply α} (hl : s.Leads log s') (h : s.Obeys rule post [])
    {before after : List (Exchange Ask Reply)} {x : Exchange Ask Reply}
    (hx : log = before ++ x :: after) (hmute : ∀ q, ¬ rule (before ++ [x]) q) :
    after = [] ∧ ∃ a, s' = .done a ∧ post (before ++ [x]) a := by
  obtain ⟨y, _, -, hy⟩ | ⟨hnil, hs'⟩ := hl.next h hx
  · exact absurd hy (hmute _)
  · cases s' with
    | done a => exact ⟨hnil, a, rfl, hs'⟩
    | ask q resume => exact absurd hs'.1 (hmute q)

/-- What is asked only if nothing of its kind was asked before is asked at most once. -/
theorem Leads.countP_le_one {s s' : Script Ask Reply α} (hl : s.Leads log s')
    (h : s.Obeys rule post []) (kind : Ask → Bool)
    (honce : ∀ log q, rule log q → kind q → ∀ x ∈ log, ¬ kind x.question) :
    log.countP (fun x => kind x.question) ≤ 1 := by
  induction hl with
  | start => exact Nat.zero_le 1
  | @answered log q resume hl reply ih =>
    rw [List.countP_append, List.countP_singleton]
    by_cases hq : kind q
    · have hnone : log.countP (fun x => kind x.question) = 0 :=
        List.countP_eq_zero.mpr (honce log q (h.leads hl).1 hq)
      simp [hnone, hq]
    · simpa [hq] using ih

end Rules

/-! ## Runs in which every question is answered -/

/-- What has come of a script whose questions were all answered. -/
structure Conduct (Ask : Type) (Reply : Ask → Type) (α σ : Type) where
  result : α
  /-- what was asked and answered, oldest first -/
  log : List (Exchange Ask Reply)
  /-- the surroundings as the script has left them -/
  state : σ

/-- Runs a script in surroundings that answer every question, and keeps the transcript. -/
def conduct {σ : Type} (answer : (q : Ask) → σ → Reply q × σ) :
    Script Ask Reply α → σ → Conduct Ask Reply α σ
  | .done a, s => ⟨a, [], s⟩
  | .ask q resume, s =>
    let rest := (resume (answer q s).1).conduct answer (answer q s).2
    { rest with log := ⟨q, (answer q s).1⟩ :: rest.log }

section Runs

variable {σ : Type} {answer : (q : Ask) → σ → Reply q × σ}

/-- The transcript of a run leads to its result. -/
theorem conduct_leads (s : Script Ask Reply α) (state : σ) :
    s.Leads (s.conduct answer state).log (.done (s.conduct answer state).result) := by
  induction s generalizing state with
  | done a => exact .start
  | ask q resume ih => exact (ih _ _).reply

/-- One script after another. -/
theorem conduct_bind (s : Script Ask Reply α) (f : α → Script Ask Reply β) (state : σ) :
    (s >>= f).conduct answer state =
      let first := s.conduct answer state
      let rest := (f first.result).conduct answer first.state
      { rest with log := first.log ++ rest.log } := by
  induction s generalizing state with
  | done a => rfl
  | ask q resume ih =>
    rw [ask_bind, conduct, ih]
    rfl

end Runs

end JobOperator.Script
