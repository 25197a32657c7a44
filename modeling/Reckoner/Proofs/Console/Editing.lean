import Mathlib.Data.List.GetD
import Reckoner.Console.LineEditor
import Reckoner.Proofs.Text.Positions

/-!
# Editing within the line of the line editor

The line editor puts characters in and takes them out at places in the bytes of its line, measures
the text before such a place to put the cursor there, and reads earlier lines at an index. A place
that is not between characters, or an index behind the end, would be the end of the program. Here
the keys are written with that in mind: a key has an effect only if nothing of the kind is met. It
never is as long as the cursor is not beyond the line and the recalled line is one of the earlier
ones, or none (`Edit.keepsInside`).
-/

namespace Reckoner.LineEditor

open Text

/-- The column of the cursor, measured before a place in the bytes of the line. -/
def cursorColumn? (line : List Char) (cursor : Nat) : Option Nat :=
  (Utf8.sliceTo? line (Utf8.offset line cursor)).map fun before =>
    min (1 + width marker + width before) columnLimit

namespace Edit

variable {earlier : List (List Char)} {e : Edit}

/-! ### Operations that may fail -/

/-- Put a character in at the place of the cursor. -/
def insert? (e : Edit) (c : Char) : Option Edit :=
  (Utf8.insertAt? e.line (Utf8.offset e.line e.cursor) c).map fun line =>
    { e with line, cursor := e.cursor + 1 }

/-- Take the character before the cursor out. -/
def backspace? (e : Edit) : Option Edit :=
  if 0 < e.cursor then
    (Utf8.removeAt? e.line (Utf8.offset e.line (e.cursor - 1))).map fun line =>
      { e with line, cursor := e.cursor - 1 }
  else some e

/-- Take the character behind the cursor out. -/
def delete? (e : Edit) : Option Edit :=
  if e.cursor < e.line.length then
    (Utf8.removeAt? e.line (Utf8.offset e.line e.cursor)).map fun line => { e with line }
  else some e

/-- Read an earlier line. -/
def recallLine? (earlier : List (List Char)) (n : Nat) : Option Edit :=
  earlier[n]?.map fun line => ⟨line, line.length, n⟩

/-- Read the line before the one that is recalled. -/
def up? (earlier : List (List Char)) (e : Edit) : Option Edit :=
  if 0 < e.recalled then recallLine? earlier (e.recalled - 1) else some e

/-- Read the line after the one that is recalled, unless there is none. -/
def down? (earlier : List (List Char)) (e : Edit) : Option Edit :=
  if e.recalled + 1 < earlier.length then recallLine? earlier (e.recalled + 1)
  else some (start earlier.length)

/-- Press a key. -/
def press? (earlier : List (List Char)) (e : Edit) : Key → Option Effect
  | .char c => if c = '\n' then some .entered else (e.insert? c).map .edited
  | .backspace => e.backspace?.map .edited
  | .delete => e.delete?.map .edited
  | .up => (e.up? earlier).map .edited
  | .down => (e.down? earlier).map .edited
  | key => some (e.press earlier key)

/-- No key goes outside the line or the earlier lines, and drawing the line does not either; each
key has the effect that it is to have. -/
structure KeepsInside (earlier : List (List Char)) (e : Edit) : Prop where
  press : ∀ key, e.press? earlier key = some (e.press earlier key)
  cursorColumn : cursorColumn? e.line e.cursor = some (cursorColumn e.line e.cursor)

/-! ### They do not fail -/

theorem insert_eq_insertIdx (h : e.cursor ≤ e.line.length) (c : Char) :
    e.insert c = { e with line := e.line.insertIdx e.cursor c, cursor := e.cursor + 1 } := by
  rw [insert, insertIdx_eq_take_drop h]

theorem insert?_eq_some (h : e.cursor ≤ e.line.length) (c : Char) :
    e.insert? c = some (e.insert c) := by
  rw [insert?, Utf8.insertAt?_offset, Option.map_some, insert_eq_insertIdx h, Nat.min_eq_left h]

theorem backspace?_eq_some (h : e.cursor ≤ e.line.length) : e.backspace? = some e.backspace := by
  rw [backspace?, backspace]
  split_ifs with hcursor
  · rw [Utf8.removeAt?_offset (Nat.lt_of_lt_of_le (Nat.sub_one_lt_of_lt hcursor) h),
      Option.map_some]
  · rfl

theorem delete?_eq_some (e : Edit) : e.delete? = some e.delete := by
  rw [delete?, delete]
  split_ifs with h
  · rw [Utf8.removeAt?_offset h, Option.map_some]
  · rw [List.eraseIdx_of_length_le (Nat.le_of_not_lt h)]

theorem recallLine?_eq_some {n : Nat} (h : n < earlier.length) :
    recallLine? earlier n = some (recallLine earlier n) := by
  rw [recallLine?, recallLine, List.getElem?_eq_getElem h, List.getD_eq_getElem _ _ h,
    Option.map_some]

theorem up?_eq_some (h : e.recalled ≤ earlier.length) : e.up? earlier = some (e.up earlier) := by
  rw [up?, up]
  split_ifs with hrecalled
  · exact recallLine?_eq_some (Nat.lt_of_lt_of_le (Nat.sub_one_lt_of_lt hrecalled) h)
  · rfl

/-- Behind the last earlier line there is an empty one. -/
theorem recallLine_length (earlier : List (List Char)) :
    recallLine earlier earlier.length = start earlier.length := by
  rw [recallLine, List.getD_eq_default _ _ (Nat.le_refl _), start]
  rfl

theorem down?_eq_some (earlier : List (List Char)) (e : Edit) :
    e.down? earlier = some (e.down earlier) := by
  rw [down?, down]
  split_ifs with h
  · rw [Nat.min_eq_left h.le, recallLine?_eq_some h]
  · rw [Nat.min_eq_right (Nat.le_of_not_lt h), recallLine_length]

/-- **Nothing is done outside the line** and the earlier lines, while the cursor is not beyond the
one and the recalled line not beyond the others. -/
theorem keepsInside (hcursor : e.cursor ≤ e.line.length) (hrecalled : e.recalled ≤ earlier.length) :
    e.KeepsInside earlier where
  press key := by
    cases key with
    | char c =>
      show (if c = '\n' then some Effect.entered else (e.insert? c).map .edited) =
        some (if c = '\n' then .entered else .edited (e.insert c))
      rw [insert?_eq_some hcursor]
      split_ifs <;> rfl
    | backspace => exact congrArg (Option.map Effect.edited) (backspace?_eq_some hcursor)
    | delete => exact congrArg (Option.map Effect.edited) e.delete?_eq_some
    | up => exact congrArg (Option.map Effect.edited) (up?_eq_some hrecalled)
    | down => exact congrArg (Option.map Effect.edited) (down?_eq_some earlier e)
    | ctrl | left | right | home | endOfLine | other => rfl
  cursorColumn := by
    rw [cursorColumn?, Utf8.sliceTo?_offset, Option.map_some]
    rfl

end Edit

end Reckoner.LineEditor
