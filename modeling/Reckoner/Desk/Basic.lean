import Reckoner.Session.Basic

/-!
# The desk

The desk is the calculator on a full screen: a session, the line that is being typed, and the
transcript of all lines with the replies to them. One entry of the transcript is selected; moving
the selection recalls its line. The desk also remembers what the view needs: how far line,
transcript and help are scrolled, and how large the list was when it was last drawn.

Submitting a line and quitting go through the session and are the only operations that can touch the
file tree.
-/

namespace Reckoner

open Files

/-- A line and the replies to it. -/
structure Entry where
  /-- The line, without blanks around it. -/
  line : List Char
  /-- What the session answered. -/
  replies : List Reply
  /-- How long the answer took, in nanoseconds. -/
  elapsed : Nat
  /-- Whether the line was taken as a path. -/
  isPath : Bool
deriving DecidableEq, Repr

/-- The calculator on a full screen. -/
structure Desk where
  session : Session
  tree : Tree
  /-- The line that is being typed. -/
  input : List Char
  /-- How many of its characters stand before the cursor. -/
  cursor : Nat
  /-- How many of its characters are scrolled out of view. -/
  inputScroll : Nat
  /-- The lines submitted so far. -/
  transcript : List Entry
  selected : Nat
  leaving : Bool
  helpShown : Bool
  /-- How many rows of the help are scrolled out of view. -/
  helpScroll : Nat
  /-- The height of the transcript when it was last drawn. -/
  listHeight : Nat
  /-- The first row of each entry when the transcript was last drawn. -/
  starts : List Nat
  /-- How many rows of the transcript are scrolled out of view. -/
  historyScroll : Nat
  /-- Whether the end of the transcript is to be shown. -/
  toBottom : Bool
  /-- Whether the screen was too small when it was last drawn. -/
  tooSmall : Bool
deriving DecidableEq, Repr

namespace Desk

/-- A desk with nothing on it. -/
def new (session : Session) (tree : Tree) : Desk where
  session
  tree
  input := []
  cursor := 0
  inputScroll := 0
  transcript := []
  selected := 0
  leaving := false
  helpShown := false
  helpScroll := 0
  listHeight := 5
  starts := []
  historyScroll := 0
  toBottom := false
  tooSmall := false

/-! ### Editing the line -/

/-- The desk with an empty line. -/
def clearInput (d : Desk) : Desk := { d with input := [], cursor := 0, inputScroll := 0 }

/-- The desk with a character before the cursor. -/
def insertChar (d : Desk) (c : Char) : Desk :=
  { d with input := d.input.insertIdx (min d.cursor d.input.length) c, cursor := d.cursor + 1 }

/-- The desk without the character behind the cursor. -/
def deleteAtCursor (d : Desk) : Desk := { d with input := d.input.eraseIdx d.cursor }

/-- The desk without the character before the cursor. -/
def deleteBeforeCursor (d : Desk) : Desk :=
  if d.cursor = 0 then d else { d with cursor := d.cursor - 1 }.deleteAtCursor

/-- The cursor one character to the left. -/
def moveLeft (d : Desk) : Desk := { d with cursor := d.cursor - 1 }

/-- The cursor one character to the right. -/
def moveRight (d : Desk) : Desk := { d with cursor := min (d.cursor + 1) d.input.length }

/-- The cursor at the beginning of the line. -/
def moveHome (d : Desk) : Desk := { d with cursor := 0, inputScroll := 0 }

/-- The cursor behind the line. -/
def moveEnd (d : Desk) : Desk := { d with cursor := d.input.length }

/-- The cursor at the beginning of the word that it is in or behind. -/
def moveWordLeft (d : Desk) : Desk :=
  let before := (d.input.take d.cursor).reverse
  { d with cursor := ((before.dropWhile Text.isBlank).dropWhile (!Text.isBlank ·)).length }

/-- The cursor at the beginning of the next word, or behind the line. -/
def moveWordRight (d : Desk) : Desk :=
  let behind := d.input.drop d.cursor
  let rest := (behind.dropWhile (!Text.isBlank ·)).dropWhile Text.isBlank
  { d with cursor := d.input.length - rest.length }

/-- Scroll the line so that the cursor is among the `visible` characters in view and no more of the
line is out of view than has to be. -/
def adjustScroll (d : Desk) (visible : Nat) : Desk :=
  let scroll :=
    if d.cursor < d.inputScroll then d.cursor
    else if d.inputScroll + visible ≤ d.cursor then d.cursor + 1 - visible
    else d.inputScroll
  { d with inputScroll := min scroll (d.input.length - visible) }

/-! ### The selected entry -/

/-- Put the line of the selected entry into the input. -/
def recallSelected (d : Desk) : Desk :=
  let line := (d.transcript[d.selected]?.map Entry.line).getD []
  { d with input := line, cursor := line.length, inputScroll := 0, toBottom := false }

/-- Select the entry before. -/
def selectPrevious (d : Desk) : Desk := { d with selected := d.selected - 1 }.recallSelected

/-- Select the entry behind. -/
def selectNext (d : Desk) : Desk :=
  let selected := if d.selected + 1 < d.transcript.length then d.selected + 1 else d.selected
  { d with selected }.recallSelected

/-- How far the selection moves by pages. -/
def pageStep (d : Desk) : Nat := d.listHeight - 1

/-- Select the entry a page before. -/
def selectPageUp (d : Desk) : Desk :=
  { d with selected := d.selected - d.pageStep }.recallSelected

/-- Select the entry a page behind. -/
def selectPageDown (d : Desk) : Desk :=
  { d with selected := min (d.selected + d.pageStep) (d.transcript.length - 1) }.recallSelected

/-! ### Talking to the session -/

/-- Add an entry, select it and clear the line. -/
def record (d : Desk) (e : Entry) : Desk :=
  { d.clearInput with
    transcript := d.transcript ++ [e], selected := d.transcript.length, toBottom := true }

/-- Submit the line, which the session takes `elapsed` nanoseconds to answer. A blank line is only
submitted as a path. -/
def submit (d : Desk) (elapsed : Nat) : Desk :=
  let isPath := d.session.isAwaitingPath
  let line := Text.trim d.input
  if line = [] && !isPath then d
  else
    let turn := d.session.submit d.tree (String.ofList line)
    let d := { d with session := turn.session, tree := turn.tree }.record
      ⟨line, turn.replies, elapsed, isPath⟩
    { d with leaving := turn.session.isFinished }

/-- End the session as the command to quit does. -/
def quit (d : Desk) : Desk :=
  let turn := d.session.finish d.tree
  let d := { d with session := turn.session, tree := turn.tree }.record
    ⟨['q'], turn.replies, 0, false⟩
  { d with leaving := true }

/-- What remains to be said when the desk has been left: the replies of the last entry. -/
def farewell (d : Desk) : List String :=
  match d.transcript.getLast? with
  | some e => e.replies.map Reply.text
  | none => []

/-! ### Scrolling -/

/-- The greatest number of rows that can be scrolled out of view. -/
def scrollLimit : Nat := 0xFFFFFFFFFFFFFFFF

/-- An offset some rows further down. -/
def scrollDown (offset rows : Nat) : Nat := min (offset + rows) scrollLimit

/-- Show the help from its beginning. -/
def openHelp (d : Desk) : Desk := { d with helpShown := true, helpScroll := 0 }

/-- Hide the help. -/
def closeHelp (d : Desk) : Desk := { d with helpShown := false, helpScroll := 0 }

end Desk

end Reckoner
