import Reckoner.Proofs.History.RoundTrip
import Reckoner.Proofs.Session.Lines

/-!
# What lines leave in the file

A session that is fed lines adds an entry for each line that has a value, up to the command to quit,
and saves the history in the end. Unless a line changes the path, it is as if the entries had been
saved once, to the tree at the beginning: what was saved before makes no difference to what is saved
last (`feed_of_ready`). The entries come back from the file as they are, because an expression has
no line feed in it and an entry ends in a number (`entry_unbroken`).
-/

namespace Reckoner

open Files

/-- The entry for what a command asks to evaluate, if it has a value. -/
def Command.recorded? : Command → Option String
  | .evaluate e _ =>
    match Expression.evaluate e with
    | .ok x => some (History.entry e x)
    | .error _ => none
  | _ => none

/-- The history with more entries. -/
def History.extend (h : History) (entries : List String) : History :=
  { h with entries := h.entries ++ entries }

namespace Session

/-- The entries for lines that are taken as commands, up to the command to quit. -/
def entriesFor (lines : List String) : List String :=
  (lines.takeWhile fun line => Command.ofLine line ≠ .quit).filterMap fun line =>
    (Command.ofLine line).recorded?

variable {s : Session} {t u : Tree} {line : String} {lines : List String}

/-! ### Entries -/

theorem entriesFor_cons_of_quit (h : Command.ofLine line = .quit) (lines : List String) :
    entriesFor (line :: lines) = [] := by
  rw [entriesFor, List.takeWhile_cons_of_neg (by simp [h]), List.filterMap_nil]

theorem entriesFor_cons (h : Command.ofLine line ≠ .quit) (lines : List String) :
    entriesFor (line :: lines) = (Command.ofLine line).recorded?.toList ++ entriesFor lines := by
  rw [entriesFor, List.takeWhile_cons_of_pos (by simp [h]), List.filterMap_cons, ← entriesFor]
  cases (Command.ofLine line).recorded? <;> rfl

theorem entriesFor_append (h : ∀ line ∈ lines, Command.ofLine line ≠ .quit)
    (more : List String) : entriesFor (lines ++ more) = entriesFor lines ++ entriesFor more := by
  induction lines with
  | nil => rfl
  | cons line lines ih =>
    rw [List.forall_mem_cons] at h
    rw [List.cons_append, entriesFor_cons h.1, entriesFor_cons h.1, ih h.2, List.append_assoc]

/-- The entries for lines without line feeds come back from their bytes. -/
theorem entriesFor_unbroken (h : ∀ line ∈ lines, '\n' ∉ line.toList) {e : String}
    (he : e ∈ entriesFor lines) : '\n' ∉ e.toList ∧ e.toList.getLast? ≠ some '\r' := by
  rw [entriesFor, List.mem_filterMap] at he
  obtain ⟨line, hline, he⟩ := he
  have hn := h line ((List.takeWhile_sublist _).subset hline)
  cases hl : Command.ofLine line with
  | evaluate expression detailed =>
    rw [hl, Command.recorded?] at he
    cases hx : Expression.evaluate expression with
    | ok x =>
      rw [hx] at he
      cases he
      exact History.entry_unbroken (fun hc => hn (Command.mem_of_mem_expression hl hc)) x
    | error f =>
      rw [hx] at he
      cases he
  | quit | showHistory | save | changePath =>
    rw [hl] at he
    cases he

/-! ### Lines -/

/-- The end of a session in a tree that differs in the file alone. -/
theorem finish_of_saveAlike (hs : s.phase = .ready) (hu : History.SaveAlike s.history.path t u) :
    ((s.finish u).session, (s.finish u).tree) =
      (⟨s.history.extend [], s.cwd, .finished⟩, ((s.history.extend []).save t).tree) := by
  have hextend : s.history.extend [] = s.history := by rw [History.extend, List.append_nil]
  rw [finish_session, tree_finish (isFinished_of_ready hs), hu.tree_save rfl, hextend]

/-- **What lines leave.** A session that expects a command and whose path no line changes ends with
the entries for the lines behind its own, and it is as if they had been saved to the tree `t`,
whatever has been saved in the meantime. -/
theorem feed_of_ready (hs : s.phase = .ready)
    (hlines : ∀ line ∈ lines, Command.ofLine line ≠ .changePath)
    (hu : History.SaveAlike s.history.path t u) : s.feed u lines =
      (⟨s.history.extend (entriesFor lines), s.cwd, .finished⟩,
        ((s.history.extend (entriesFor lines)).save t).tree) := by
  induction lines generalizing s u with
  | nil => exact finish_of_saveAlike hs hu
  | cons line lines ih =>
    rw [List.forall_mem_cons] at hlines
    rw [feed_cons, submit_of_ready hs]
    cases hl : Command.ofLine line with
    | quit =>
      have hfinished : (s.finish u).session.phase = .finished := by rw [finish_session]
      rw [execute, feed_of_finished hfinished, entriesFor_cons_of_quit hl]
      exact finish_of_saveAlike hs hu
    | changePath => exact absurd hl hlines.1
    | showHistory =>
      rw [execute, entriesFor_cons (by simp [hl]), hl]
      exact ih hs hlines.2 hu
    | save =>
      rw [execute, entriesFor_cons (by simp [hl]), hl]
      exact ih hs hlines.2 (hu.save rfl)
    | evaluate e detailed =>
      rw [execute, evaluate_eq, entriesFor_cons (by simp [hl]), hl, Command.recorded?]
      cases he : Expression.evaluate e with
      | error f => exact ih hs hlines.2 hu
      | ok x =>
        have hrecord : s.history.extend ([History.entry e x] ++ entriesFor lines) =
            (s.history.record e x).extend (entriesFor lines) := by
          rw [History.extend, History.extend, History.record, List.append_assoc]
        dsimp only [Option.toList]
        rw [hrecord]
        exact ih hs hlines.2 hu

end Session

end Reckoner
