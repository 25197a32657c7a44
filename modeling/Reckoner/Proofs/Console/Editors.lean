import Reckoner.Proofs.Console.Draft
import Reckoner.Proofs.Desk.Typing

/-!
# Two editors

A line is edited in the line editor and at the desk. The keys that edit it have the same effect in
both: the text and the cursor stay the same if they were the same before (`EditKey.alike_press`).
What is not compared are the keys for earlier lines, which the two treat differently, and the keys
that end a line.
-/

namespace Reckoner

open LineEditor

/-- A key that edits a line. -/
inductive EditKey where
  /-- A character; the line feed stands for the enter key and is none. -/
  | char (c : Char) (hc : c ≠ '\n')
  | backspace
  | delete
  | left
  | right
  | home
  | endOfLine
  /-- Control-u. -/
  | clear
deriving DecidableEq, Repr

namespace EditKey

/-- The key in the line editor. -/
def inLine : EditKey → LineEditor.Key
  | char c _ => .char c
  | backspace => .backspace
  | delete => .delete
  | left => .left
  | right => .right
  | home => .home
  | endOfLine => .endOfLine
  | clear => .ctrl 'u'

/-- The key at the desk, with what is held down. -/
def atDesk : EditKey → Desk.Key × Desk.Modifiers
  | char c _ => (.char c, .none)
  | backspace => (.backspace, .none)
  | delete => (.delete, .none)
  | left => (.left, .none)
  | right => (.right, .none)
  | home => (.home, .none)
  | endOfLine => (.endOfLine, .none)
  | clear => (.char 'u', .control)

/-- The desk has the same text and cursor as the line editor, and keys go to its input. -/
structure Alike (d : Desk) (e : Edit) : Prop where
  input : d.input = e.line
  cursor : d.cursor = e.cursor
  helpShown : d.helpShown = false

variable {d : Desk} {e : Edit} {draft : Draft} {earlier : List (List Char)}

/-! ### One key -/

theorem alike_insert (h : Alike d e) (he : e.cursor ≤ e.line.length) (c : Char) :
    Alike (d.insertChar c) (e.insert c) := by
  rw [Edit.insert_eq_insertIdx he, Desk.insertChar, h.input, h.cursor, Nat.min_eq_left he]
  exact ⟨rfl, rfl, h.helpShown⟩

theorem alike_backspace (h : Alike d e) : Alike d.deleteBeforeCursor e.backspace := by
  rw [Desk.deleteBeforeCursor, Edit.backspace, Desk.deleteAtCursor, h.cursor, h.input]
  by_cases hcursor : e.cursor = 0
  · rw [if_pos hcursor, if_neg (Nat.not_lt.2 hcursor.le)]
    exact h
  · rw [if_neg hcursor, if_pos (Nat.pos_of_ne_zero hcursor)]
    exact ⟨rfl, rfl, h.helpShown⟩

theorem alike_delete (h : Alike d e) : Alike d.deleteAtCursor e.delete := by
  rw [Desk.deleteAtCursor, Edit.delete, h.cursor, h.input]
  exact ⟨rfl, rfl, h.helpShown⟩

/-- At the end of the line one stops by comparing first, the other by taking the lesser. -/
theorem alike_right (h : Alike d e) (he : e.cursor ≤ e.line.length) :
    Alike d.moveRight e.right := by
  rw [Desk.moveRight, Edit.right, h.cursor, h.input]
  split_ifs with hcursor
  · exact ⟨rfl, Nat.min_eq_left hcursor, h.helpShown⟩
  · refine ⟨rfl, ?_, h.helpShown⟩
    show min (e.cursor + 1) e.line.length = e.cursor
    omega

/-- **A key has the same effect** at the desk as in the line editor. -/
theorem alike_press (h : Alike d draft.edit) (key : EditKey) (elapsed : Nat) :
    Alike (d.press key.atDesk.1 key.atDesk.2 elapsed) (draft.press key.inLine).edit := by
  have he := draft.cursor_edit_le
  rw [Desk.press_of_helpShown h.helpShown]
  cases key with
  | char c hc => exact draft.insert_edit c ▸ alike_insert h he c
  | backspace => exact draft.backspace_edit ▸ alike_backspace h
  | delete => exact draft.delete_edit ▸ alike_delete h
  | left => exact draft.left_edit ▸ ⟨h.input, congrArg (· - 1) h.cursor, h.helpShown⟩
  | right => exact draft.right_edit ▸ alike_right h he
  | home => exact ⟨h.input, rfl, h.helpShown⟩
  | endOfLine => exact draft.toEnd_edit ▸ ⟨h.input, congrArg List.length h.input, h.helpShown⟩
  | clear => exact ⟨rfl, rfl, h.helpShown⟩

theorem not_ends (draft : Draft) (key : EditKey) :
    ¬ (key.inLine = .char '\n' ∨ draft.GivesUp key.inLine) := by
  cases key with
  | char c hc => simp [inLine, Draft.GivesUp, hc]
  | clear => simp [inLine, Draft.GivesUp]
  | backspace | delete | left | right | home | endOfLine => simp [inLine, Draft.GivesUp]

/-! ### Many keys -/

theorem alike_pressAll (h : Alike d draft.edit) (keys : List EditKey) (elapsed : Nat) :
    ∃ draft', draft.after? (keys.map inLine) = some draft' ∧
      Alike (d.pressAll elapsed (keys.map atDesk)) draft'.edit := by
  induction keys generalizing d draft with
  | nil => exact ⟨draft, rfl, h⟩
  | cons key keys ih =>
    rw [List.map_cons, List.map_cons, Draft.after?, if_neg (not_ends draft key),
      Desk.pressAll_cons]
    exact ih (alike_press h key elapsed)

end EditKey

/-- **The two editors agree.** Keys that edit a line, pressed in the line editor when it has just
been asked for a line on a terminal that works, and at a desk with an empty input where the help is
hidden, lead to the same text and the same cursor. -/
theorem editors_agree (keys : List EditKey) {d : Desk} (hhelp : d.helpShown = false)
    (hinput : d.input = []) (hcursor : d.cursor = 0) (elapsed : Nat) {k : LineEditor.State}
    (hbroken : k.screen.broken = []) {rest : List Stroke}
    (hstrokes : k.strokes = keys.map (fun key => .key key.inLine) ++ rest) (prompt : String) :
    ∃ screen e,
      (Edit.start k.earlier.length).after? k.earlier (keys.map EditKey.inLine) = some e ∧
      ask prompt k = edit k screen e rest ∧
      (d.pressAll elapsed (keys.map EditKey.atDesk)).input = e.line ∧
      (d.pressAll elapsed (keys.map EditKey.atDesk)).cursor = e.cursor := by
  have hstart : EditKey.Alike d (Draft.start k.earlier).edit := ⟨hinput, hcursor, hhelp⟩
  obtain ⟨draft, hdraft, halike⟩ := EditKey.alike_pressAll hstart keys elapsed
  have hafter : (Edit.start k.earlier.length).after? k.earlier (keys.map EditKey.inLine) =
      some draft.edit := by
    rw [← Draft.edit_start, Draft.after?_edit (Draft.holds_start _), hdraft, Option.map_some]
  have hmap : keys.map (fun key => Stroke.key key.inLine) = (keys.map EditKey.inLine).map .key :=
    List.map_map.symm
  have hask : ∃ screen, ask prompt k = edit k screen draft.edit rest := by
    rw [ask_eq hbroken, hstrokes, hmap]
    exact edit_after? (by exact hbroken) hafter rest
  obtain ⟨screen, hask⟩ := hask
  exact ⟨screen, draft.edit, hafter, hask, halike.input, halike.cursor⟩

/-- A wide character is taken out of the middle, and another is put in at the end. -/
theorem editors_agree_in_the_middle :
    let keys : List EditKey := [.char '1' (by decide), .char '漢' (by decide),
      .char '2' (by decide), .left, .backspace, .right, .right, .char 'π' (by decide)]
    let d := Desk.new (.new ⟨[], ⟨"h.log"⟩⟩ ⟨"/"⟩) (.empty [])
    let k := LineEditor.State.start
      (keys.map (fun key => Stroke.key key.inLine) ++ [.key (.char '\n')]) 1 []
    (d.helpShown = false ∧ d.input = [] ∧ d.cursor = 0 ∧ k.screen.broken = []) ∧
      ∃ e, (Edit.start 0).after? [] (keys.map EditKey.inLine) = some e ∧
        e.line = ['1', '2', 'π'] ∧ e.cursor = 3 := by
  intro keys d k
  obtain ⟨_, e, hafter, -, hinput, hcursor⟩ :=
    editors_agree keys (d := d) rfl rfl rfl 0 (k := k) rfl rfl ">"
  refine ⟨⟨rfl, rfl, rfl, rfl⟩, e, hafter, ?_, ?_⟩
  · rw [← hinput]
    decide +kernel
  · rw [← hcursor]
    decide +kernel

end Reckoner
