import Reckoner.Proofs.Session.Calls
import Reckoner.Proofs.Text.Blank

/-!
# Lines fed to a session

A session that is fed lines takes them one after the other and is asked to finish behind the last
(`feed`). Blanks around a line do not count (`submit_congr`), a blank line that is no path changes
nothing, and neither does anything once the session is finished.
-/

namespace Reckoner

open Files Text

theorem Command.ofLine_congr {line line' : String} (h : trim line.toList = trim line'.toList) :
    Command.ofLine line = Command.ofLine line' := by
  rw [Command.ofLine, h, Command.ofLine]

/-- An expression is made of characters of its line. -/
theorem Command.mem_of_mem_expression {line e : String} {detailed : Bool} {c : Char}
    (h : ofLine line = .evaluate e detailed) (hc : c ∈ e.toList) : c ∈ line.toList := by
  refine (trim_isInfix line.toList).subset ?_
  rw [ofLine, ofTrimmed] at h
  split at h
  · cases h
  · cases h
  · cases h
  · cases h
  · split_ifs at h
    · rw [Command.evaluate.injEq] at h
      rw [← h.1, String.toList_ofList] at hc
      exact List.mem_of_mem_drop ((trim_isInfix _).subset hc)
    · rw [Command.evaluate.injEq] at h
      rwa [← h.1, String.toList_ofList] at hc

theorem History.resolvePath_congr {line line' : String}
    (h : trim line.toList = trim line'.toList) (cwd : Path) :
    History.resolvePath line cwd = History.resolvePath line' cwd := by
  rw [History.resolvePath, h, History.resolvePath]

namespace Session

/-- A session sees only what is left of a line without the blanks around it. -/
theorem submit_congr {line line' : String} (h : trim line.toList = trim line'.toList)
    (s : Session) (t : Tree) : s.submit t line = s.submit t line' := by
  cases hp : s.phase with
  | finished => rw [submit_of_finished hp, submit_of_finished hp]
  | awaitingPath =>
    rw [submit_of_awaitingPath hp, submit_of_awaitingPath hp, answerPath, answerPath,
      History.resolvePath_congr h]
  | ready => rw [submit_of_ready hp, submit_of_ready hp, Command.ofLine_congr h]

/-- A blank line that is not a path changes nothing: it asks for an expression, and there is
none. -/
theorem submit_of_blank {s : Session} {line : String} (hp : s.phase ≠ .awaitingPath)
    (hl : AllBlank line.toList) (t : Tree) :
    (s.submit t line).session = s ∧ (s.submit t line).tree = t := by
  have hempty : s.submit t line = s.submit t "" := by
    refine submit_congr ?_ s t
    rw [trim_eq_nil_iff.2 hl]
    rfl
  have hcommand : Command.ofLine "" = .evaluate "" false := by decide
  have hfault : Expression.evaluate "" = .error ⟨.incomplete, 0⟩ := by decide +kernel
  rw [hempty]
  cases h : s.phase with
  | awaitingPath => exact absurd h hp
  | finished =>
    rw [submit_of_finished h]
    exact ⟨rfl, rfl⟩
  | ready =>
    rw [submit_of_ready h, hcommand, execute, evaluate_eq, hfault]
    exact ⟨rfl, rfl⟩

/-- The session and the tree after lines, the session being finished behind the last. -/
def feed (s : Session) (t : Tree) (lines : List String) : Session × Tree :=
  s.afterCalls t (lines.map .submit ++ [.finish])

theorem feed_nil (s : Session) (t : Tree) :
    s.feed t [] = ((s.finish t).session, (s.finish t).tree) := rfl

theorem feed_cons (s : Session) (t : Tree) (line : String) (lines : List String) :
    s.feed t (line :: lines) = (s.submit t line).session.feed (s.submit t line).tree lines := rfl

theorem call_of_finished {s : Session} (h : s.isFinished = true) (t : Tree) (c : Call) :
    s.call t c = ⟨s, t, []⟩ := by
  cases c with
  | submit line => exact submit_of_finished (isFinished_iff.1 h) t line
  | finish => rw [call, finish, if_pos h]

/-- Nothing changes a finished session. -/
theorem afterCalls_of_finished {s : Session} (h : s.isFinished = true) (t : Tree)
    (calls : List Call) : s.afterCalls t calls = (s, t) := by
  induction calls with
  | nil => rfl
  | cons c cs ih => rw [afterCalls, call_of_finished h, ih]

theorem feed_of_finished {s : Session} (h : s.phase = .finished) (t : Tree) (lines : List String) :
    s.feed t lines = (s, t) :=
  afterCalls_of_finished (isFinished_iff.2 h) t _

/-- A session is finished behind its lines. -/
theorem isFinished_feed (s : Session) (t : Tree) (lines : List String) :
    (s.feed t lines).1.isFinished = true := by
  induction lines generalizing s t with
  | nil => rw [feed_nil, finish_session, isFinished_iff]
  | cons line lines ih =>
    rw [feed_cons]
    exact ih _ _

end Session

end Reckoner
