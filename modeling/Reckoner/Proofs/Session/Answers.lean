import Reckoner.Proofs.Session.Dialogue

/-!
# Dialogues with consoles that answer

A console *answers* with lines and failures when it gives them in order and then says that the input
has ended, however often it is asked (`Console.Answers.reads`). Up to its first failure it delivers.
There a dialogue stops that has not ended before: the lines before the failure have been submitted,
and nothing else has happened (`Console.Answers.run`).
-/

namespace Reckoner

open Files

/-- The supply for an answer, a line or the failure to read one. -/
def Supply.of {κ : Type} (k : κ) : Except Breakdown String → Supply κ
  | .ok text => .line text k
  | .error why => .broken why k

namespace Console

variable {κ : Type} {c : Console κ} {s : Session} {t : Tree} {k : κ}

/-- What reading with these prompts in turn gives, `none` at the end of the input. -/
def reads (c : Console κ) : List String → κ → List (Except Breakdown (Option String))
  | [], _ => []
  | prompt :: prompts, k =>
    match c.ask prompt k with
    | .line text k' => .ok (some text) :: c.reads prompts k'
    | .closed k' => .ok none :: c.reads prompts k'
    | .broken why k' => .error why :: c.reads prompts k'

/-- In a state that `R` relates to answers, the console gives them and then closes. -/
structure Answers (c : Console κ) (R : List (Except Breakdown String) → κ → Prop) : Prop where
  /-- Showing a message uses no answer. -/
  display : ∀ {answers k}, R answers k → ∀ message, R answers (c.display message k)
  /-- Behind the last answer the input has ended, and it stays so. -/
  ask_nil : ∀ {k}, R [] k → ∀ prompt, ∃ k', c.ask prompt k = .closed k' ∧ R [] k'
  /-- The first answer comes first. -/
  ask_cons : ∀ {answer answers k}, R (answer :: answers) k → ∀ prompt, ∃ k',
    c.ask prompt k = .of k' answer ∧ R answers k'

namespace Answers

variable {R : List (Except Breakdown String) → κ → Prop}
  {answers rest : List (Except Breakdown String)} {lines : List String} {why : Breakdown}

/-- Reading gives the answers in order, and at the end nothing. -/
theorem reads (h : c.Answers R) (hk : R answers k) (prompts : List String) :
    c.reads prompts k =
      (answers.map (Except.map some) ++ List.replicate prompts.length (Except.ok none)).take
        prompts.length := by
  induction prompts generalizing answers k with
  | nil => rfl
  | cons prompt prompts ih =>
    cases answers with
    | nil =>
      obtain ⟨k', hask, hk'⟩ := h.ask_nil hk prompt
      rw [Console.reads, hask]
      dsimp only
      rw [ih hk']
      simp [List.replicate_succ]
    | cons answer answers =>
      obtain ⟨k', hask, hk'⟩ := h.ask_cons hk prompt
      have hreads : c.reads (prompt :: prompts) k = answer.map some :: c.reads prompts k' := by
        rw [Console.reads, hask]
        cases answer <;> rfl
      rw [hreads, ih hk', List.map_cons, List.cons_append, List.length_cons, List.take_succ_cons,
        List.take_append, List.take_append, List.take_replicate, List.take_replicate]
      congr 3
      omega

/-! ### Dialogues -/

/-- Without a failure the console delivers. -/
theorem delivers (h : c.Answers R) : c.Delivers fun lines k => R (lines.map .ok) k where
  display hk := h.display hk
  ask_nil hk prompt := by
    obtain ⟨k', hask, -⟩ := h.ask_nil hk prompt
    exact ⟨k', hask⟩
  ask_cons hk prompt := by
    obtain ⟨k', hask, hk'⟩ := h.ask_cons hk prompt
    exact ⟨_, k', hask, rfl, hk'⟩

/-- The lines before a failure are submitted. If the session goes on behind them, the dialogue stops
with the failure. -/
theorem converse (h : c.Answers R) (hk : R (lines.map .ok ++ .error why :: rest) k) :
    ((c.converse s t k).session, (c.converse s t k).tree) = s.afterCalls t (lines.map .submit) ∧
      (c.converse s t k).breakdown =
        if (c.converse s t k).session.isFinished then none else some why := by
  induction lines generalizing s t k with
  | nil =>
    cases hs : s.isFinished with
    | true =>
      rw [converse_of_finished hs]
      exact ⟨rfl, (if_pos hs).symm⟩
    | false =>
      obtain ⟨k', hask, -⟩ := h.ask_cons hk s.prompt
      rw [converse_of_not_finished hs, hask]
      exact ⟨rfl, (if_neg (Bool.eq_false_iff.1 hs)).symm⟩
  | cons line lines ih =>
    cases hs : s.isFinished with
    | true =>
      rw [converse_of_finished hs, Session.afterCalls_of_finished hs]
      exact ⟨rfl, (if_pos hs).symm⟩
    | false =>
      obtain ⟨k', hask, hk'⟩ := h.ask_cons hk s.prompt
      rw [converse_of_not_finished hs, hask]
      exact ih (displayAll_of_display h.display hk' _)

theorem exists_lines (answers : List (Except Breakdown String)) :
    (∃ lines : List String, answers = lines.map .ok) ∨
      ∃ (lines : List String) (why : Breakdown) (rest : List (Except Breakdown String)),
        answers = lines.map .ok ++ .error why :: rest := by
  induction answers with
  | nil => exact .inl ⟨[], rfl⟩
  | cons answer answers ih =>
    cases answer with
    | error why => exact .inr ⟨[], why, answers, rfl⟩
    | ok line =>
      obtain ⟨lines, rfl⟩ | ⟨lines, why, rest, rfl⟩ := ih
      · exact .inl ⟨line :: lines, rfl⟩
      · exact .inr ⟨line :: lines, why, rest, rfl⟩

/-- **A dialogue over a console that answers.** If all answers are lines, they are fed to the
session. Otherwise the lines before the first failure are submitted, and nothing else happens; the
failure is told unless the session has finished with one of them. -/
theorem run (h : c.Answers R) (hk : R answers k) (s : Session) (t : Tree) :
    (∃ lines : List String, answers = lines.map .ok ∧
        ((c.run s t k).session, (c.run s t k).tree) = s.feed t lines ∧
        (c.run s t k).breakdown = none) ∨
      ∃ (lines : List String) (why : Breakdown) (rest : List (Except Breakdown String)),
        answers = lines.map .ok ++ .error why :: rest ∧
        ((c.run s t k).session, (c.run s t k).tree) = s.afterCalls t (lines.map .submit) ∧
        (c.run s t k).breakdown =
          if (c.run s t k).session.isFinished then none else some why := by
  obtain ⟨lines, rfl⟩ | ⟨lines, why, rest, rfl⟩ := exists_lines answers
  · obtain ⟨hsession, htree, hbreakdown⟩ := h.delivers.run hk s t
    exact .inl ⟨lines, rfl, Prod.ext hsession htree, hbreakdown⟩
  · exact .inr ⟨lines, why, rest, rfl, h.converse (h.display hk s.banner)⟩

end Answers

end Console

end Reckoner
