import Mathlib.Data.List.Basic
import Reckoner.Proofs.Expression.Accepted
import Reckoner.Proofs.Number.Notation
import Reckoner.Proofs.Session.Calls
import Reckoner.Proofs.Session.Commands

/-!
# Entries can be checked

An entry is an expression, a sign of equality between two spaces and the value of the expression. No
expression has a sign of equality in it, and neither does the text of a number, so an entry falls
into its two parts in one way only (`join_eq_iff`). Whatever calls are made of a session that begins
without entries, each of its entries has such an expression with its value (`entries_checkable`).
-/

namespace Reckoner

open Files Text

/-! ### Expressions of commands -/

/-- The expression of a command has no blanks around it. -/
theorem Command.trim_expression {line e : String} {detailed : Bool}
    (h : ofLine line = .evaluate e detailed) : trim e.toList = e.toList := by
  rcases ofTrimmed_eq_evaluate h with ⟨w, rest, -, -, -, rfl, -⟩ | ⟨rfl, -⟩
  · rw [String.toList_ofList, trim_trim]
  · rw [String.toList_ofList, trim_trim]

/-- No expression has a sign of equality in it. -/
theorem Expression.equals_not_mem_of_evaluate {e : String} {v : Number}
    (h : Expression.evaluate e = .ok v) : '=' ∉ e.toList := by
  intro hmem
  have haccepted : Accepted e.toList := ⟨v, by rwa [String.ofList_toList]⟩
  have hcases := haccepted.mem_cases hmem
  revert hcases
  decide

namespace History

/-! ### Entries and their parts -/

section Parts

variable {e n : String}

theorem toList_join (e n : String) :
    (e ++ " = " ++ n).toList = (e.toList ++ [' ']) ++ '=' :: (' ' :: n.toList) := by
  simp

/-- Parts without a sign of equality can be told apart when one stands between them. -/
theorem join_eq_iff (he : '=' ∉ e.toList) (hn : '=' ∉ n.toList) (e' n' : String) :
    e ++ " = " ++ n = e' ++ " = " ++ n' ↔ e' = e ∧ n' = n := by
  have hleft : '=' ∉ e.toList ++ [' '] := by simp [he]
  have hright : '=' ∉ ' ' :: n.toList := by simp [hn]
  rw [← String.toList_inj, toList_join, toList_join,
    List.append_cons_inj_of_notMem hleft hright, List.append_cancel_right_eq, List.cons.injEq,
    String.toList_inj, String.toList_inj]
  simp [eq_comm]

theorem count_join (he : '=' ∉ e.toList) (hn : '=' ∉ n.toList) :
    (e ++ " = " ++ n).toList.count '=' = 1 := by
  rw [toList_join]
  simp [List.count_eq_zero.mpr he, List.count_eq_zero.mpr hn]

end Parts

/-- An entry that can be checked. -/
structure Checkable (x : String) : Prop where
  /-- There is exactly one sign of equality. -/
  count_eq : x.toList.count '=' = 1
  /-- The entry falls in one way into two parts with the sign and its spaces between them: an
  expression without blanks around it, and the text of its value. -/
  parts : ∃ e n, (∀ e' n', x = e' ++ " = " ++ n' ↔ e' = e ∧ n' = n) ∧
    (∃ v, Expression.evaluate e = .ok v ∧ v.text = n) ∧
    (∀ c ∈ e.toList.head?, isBlank c = false) ∧ ∀ c ∈ e.toList.getLast?, isBlank c = false

/-- The entry for an expression without blanks around it can be checked. -/
theorem checkable_entry {e : String} {v : Number} (he : Expression.evaluate e = .ok v)
    (htrim : trim e.toList = e.toList) : Checkable (entry e v) := by
  have hequals := Expression.equals_not_mem_of_evaluate he
  have hvalue : '=' ∉ v.text.toList := by
    rw [Number.toList_text]
    exact v.equals_not_mem_chars
  refine ⟨count_join hequals hvalue, e, v.text, fun e' n' => join_eq_iff hequals hvalue e' n',
    ⟨v, he, rfl⟩, fun c hc => ?_, fun c hc => ?_⟩
  · obtain ⟨cs, hcs⟩ := List.head?_eq_some_iff.mp hc
    exact isBlank_of_trim_eq (htrim.trans hcs)
  · exact isBlank_of_getLast?_trim (htrim.symm ▸ hc)

end History

namespace Session

/-- **Entries can be checked.** Whatever calls are made of a session that begins with an empty
history, each entry has exactly one sign of equality and falls in one way into an expression and the
text of its value. -/
theorem entries_checkable (path cwd : Path) (t : Tree) (calls : List Call) :
    ∀ x ∈ ((new (.new path) cwd).afterCalls t calls).1.history.entries, History.Checkable x := by
  intro x hx
  rw [entries_afterCalls, List.mem_append, List.mem_filterMap] at hx
  rcases hx with hx | ⟨m, -, hadded⟩
  · cases hx
  · obtain ⟨-, -, line, e, detailed, v, -, hl, he, rfl⟩ := (m.added?_eq_some_iff x).mp hadded
    exact History.checkable_entry he (Command.trim_expression hl)

/-- The value need not be finite, and lines that are no expressions leave nothing. -/
theorem entries_checkable_infinity :
    let s := new (.new ⟨"h.log"⟩) ⟨"/d"⟩
    let lines := ["1 = 1", " Details  -1/ 0\t", "h", "2+"]
    (s.afterCalls (.empty []) (lines.map .submit)).1.history.entries = ["-1/ 0 = -Infinity"] ∧
      History.Checkable "-1/ 0 = -Infinity" := by
  intro s lines
  have h : (s.afterCalls (.empty []) (lines.map .submit)).1.history.entries =
      ["-1/ 0 = -Infinity"] := by decide +kernel
  have hmem : "-1/ 0 = -Infinity" ∈
      (s.afterCalls (.empty []) (lines.map .submit)).1.history.entries := by
    rw [h]
    exact List.mem_singleton_self _
  exact ⟨h, entries_checkable ⟨"h.log"⟩ ⟨"/d"⟩ (.empty []) (lines.map .submit) _ hmem⟩

end Session

end Reckoner
