import Reckoner.Desk.Basic
import Reckoner.Proofs.Text.Positions

/-!
# Editing within the line

The line is edited at places in its bytes and words are looked for at indices of its characters. A
place that is not between characters, or an index behind the end, would be the end of the program.
Here the operations are written with that in mind: each gives the desk only if it has met nothing of
the kind. As long as the cursor is not beyond the line they always do, and the desk is the one that
the operation gives (`Desk.keepsInside_of_cursor`).
-/

namespace Reckoner.Desk

open Text

variable {d : Desk}

/-! ### Operations that may fail -/

/-- Put a character in at the place of the cursor. -/
def insertChar? (d : Desk) (c : Char) : Option Desk :=
  (Utf8.insertAt? d.input (Utf8.offset d.input d.cursor) c).map fun input =>
    { d with input, cursor := d.cursor + 1 }

/-- Take the character out at the place of the cursor, unless that is the end. -/
def deleteAtCursor? (d : Desk) : Option Desk :=
  if Utf8.offset d.input d.cursor < (Utf8.encode d.input).length then
    (Utf8.removeAt? d.input (Utf8.offset d.input d.cursor)).map fun input => { d with input }
  else some d

/-- Take the character before the cursor out. -/
def deleteBeforeCursor? (d : Desk) : Option Desk :=
  if d.cursor = 0 then some d else { d with cursor := d.cursor - 1 }.deleteAtCursor?

/-- Look for the beginning of the word before the cursor. -/
def moveWordLeft? (d : Desk) : Option Desk :=
  ((back? isBlank d.input d.cursor).bind (back? (!isBlank ·) d.input)).map fun cursor =>
    { d with cursor }

/-- Look for the beginning of the word behind the cursor. -/
def moveWordRight? (d : Desk) : Option Desk :=
  ((onward? (!isBlank ·) d.input d.cursor).bind (onward? isBlank d.input)).map fun cursor =>
    { d with cursor }

/-- No operation goes outside the line, and each gives what it is to give. -/
structure KeepsInside (d : Desk) : Prop where
  insertChar : ∀ c, d.insertChar? c = some (d.insertChar c)
  deleteAtCursor : d.deleteAtCursor? = some d.deleteAtCursor
  deleteBeforeCursor : d.deleteBeforeCursor? = some d.deleteBeforeCursor
  moveWordLeft : d.moveWordLeft? = some d.moveWordLeft
  moveWordRight : d.moveWordRight? = some d.moveWordRight

/-! ### They do not fail -/

theorem insertChar?_eq_some (d : Desk) (c : Char) : d.insertChar? c = some (d.insertChar c) := by
  rw [insertChar?, Utf8.insertAt?_offset, Option.map_some, insertChar]

theorem deleteAtCursor?_eq_some (d : Desk) : d.deleteAtCursor? = some d.deleteAtCursor := by
  rw [deleteAtCursor?, deleteAtCursor]
  simp only [Utf8.offset_lt_iff]
  split_ifs with h
  · rw [Utf8.removeAt?_offset h, Option.map_some]
  · rw [List.eraseIdx_of_length_le (Nat.le_of_not_lt h)]

theorem deleteBeforeCursor?_eq_some (d : Desk) :
    d.deleteBeforeCursor? = some d.deleteBeforeCursor := by
  rw [deleteBeforeCursor?, deleteBeforeCursor]
  split_ifs
  · rfl
  · exact deleteAtCursor?_eq_some _

theorem moveWordLeft?_eq_some (h : d.cursor ≤ d.input.length) :
    d.moveWordLeft? = some d.moveWordLeft := by
  rw [moveWordLeft?, back?_bind_back? _ _ h, Option.map_some, moveWordLeft]

theorem moveWordRight?_eq_some (h : d.cursor ≤ d.input.length) :
    d.moveWordRight? = some d.moveWordRight := by
  rw [moveWordRight?, onward?_bind_onward? _ _ h, Option.map_some, moveWordRight]

/-- **Nothing is done outside the line** while the cursor is not beyond it. -/
theorem keepsInside_of_cursor (h : d.cursor ≤ d.input.length) : d.KeepsInside where
  insertChar := d.insertChar?_eq_some
  deleteAtCursor := d.deleteAtCursor?_eq_some
  deleteBeforeCursor := d.deleteBeforeCursor?_eq_some
  moveWordLeft := moveWordLeft?_eq_some h
  moveWordRight := moveWordRight?_eq_some h

end Reckoner.Desk
