import Reckoner.Session.Dialogue
import Reckoner.Text.Width

/-!
# The line editor

On a terminal in raw mode the program edits the line itself. Keys insert and delete characters, move
the cursor and recall earlier lines; after every key the line is drawn again in the row where it
began. Every line of output ends with a carriage return and a line feed.

The terminal is scripted: the keys are given beforehand, and with them the failures to read one and
the moments from which a part of the terminal fails. What is written is kept, cut into pieces where
a key was asked for.
-/

namespace Reckoner.LineEditor

open Text

/-! ### Editing a line -/

/-- A key. -/
inductive Key where
  /-- A character; the line feed stands for the enter key. -/
  | char (c : Char)
  /-- A character together with the control key. -/
  | ctrl (c : Char)
  | backspace
  | delete
  | left
  | right
  | home
  | endOfLine
  | up
  | down
  /-- A key that means nothing. -/
  | other
deriving DecidableEq, Repr

/-- A line that is being edited. -/
structure Edit where
  /-- The characters of the line. -/
  line : List Char
  /-- How many of them stand before the cursor. -/
  cursor : Nat
  /-- Which earlier line is recalled; their number if none is. -/
  recalled : Nat
deriving DecidableEq, Repr

/-- What a key does. -/
inductive Effect where
  /-- The line goes on like this. -/
  | edited (e : Edit)
  /-- The line is complete. -/
  | entered
  /-- There is no line, as at the end of input. -/
  | closed
deriving DecidableEq, Repr

namespace Edit

/-- An empty line, nothing recalled of `count` earlier lines. -/
def start (count : Nat) : Edit := ⟨[], 0, count⟩

/-- The line with a character before the cursor. -/
def insert (e : Edit) (c : Char) : Edit :=
  { e with line := e.line.take e.cursor ++ c :: e.line.drop e.cursor, cursor := e.cursor + 1 }

/-- The line without the character before the cursor. -/
def backspace (e : Edit) : Edit :=
  if 0 < e.cursor then { e with line := e.line.eraseIdx (e.cursor - 1), cursor := e.cursor - 1 }
  else e

/-- The line without the character behind the cursor. -/
def delete (e : Edit) : Edit := { e with line := e.line.eraseIdx e.cursor }

/-- The cursor one character to the left. -/
def left (e : Edit) : Edit := { e with cursor := e.cursor - 1 }

/-- The cursor one character to the right. -/
def right (e : Edit) : Edit :=
  if e.cursor < e.line.length then { e with cursor := e.cursor + 1 } else e

/-- The cursor behind the line. -/
def toEnd (e : Edit) : Edit := { e with cursor := e.line.length }

/-- A copy of an earlier line, or of an empty one behind the last. -/
def recallLine (earlier : List (List Char)) (n : Nat) : Edit :=
  let line := earlier.getD n []
  ⟨line, line.length, n⟩

/-- The line before the one that is recalled. -/
def up (earlier : List (List Char)) (e : Edit) : Edit :=
  if 0 < e.recalled then recallLine earlier (e.recalled - 1) else e

/-- The line after the one that is recalled, an empty one behind the last. -/
def down (earlier : List (List Char)) (e : Edit) : Edit :=
  recallLine earlier (min (e.recalled + 1) earlier.length)

/-- Press a key. -/
def press (earlier : List (List Char)) (e : Edit) : Key → Effect
  | .char c => if c = '\n' then .entered else .edited (e.insert c)
  | .ctrl c =>
    if c = 'c' then .closed
    else if c = 'd' then if e.line = [] then .closed else .edited e
    else if c = 'u' then .edited { e with line := [], cursor := 0 }
    else .edited e
  | .backspace => .edited e.backspace
  | .delete => .edited e.delete
  | .left => .edited e.left
  | .right => .edited e.right
  | .home => .edited { e with cursor := 0 }
  | .endOfLine => .edited e.toEnd
  | .up => .edited (e.up earlier)
  | .down => .edited (e.down earlier)
  | .other => .edited e

end Edit

/-! ### The terminal -/

/-- What can fail in a terminal. -/
inductive Part where
  /-- Switching to raw mode. -/
  | rawMode
  /-- Telling where the cursor is. -/
  | cursorQuery
  /-- Writing. -/
  | output
deriving DecidableEq, Repr

/-- What a terminal gives when it is asked for a key. -/
inductive Stroke where
  | key (k : Key)
  /-- A failure to read one. -/
  | failure (message : String)
  /-- A key that means nothing, after which a part of the terminal fails. -/
  | breaks (part : Part)
deriving DecidableEq, Repr

/-- What was written to a terminal, and what fails in it. -/
structure Screen where
  /-- The pieces up to the last key, the latest first. -/
  earlier : List (List Char)
  /-- What was written since the last key. -/
  current : List Char
  /-- The parts that fail. -/
  broken : List Part
deriving DecidableEq, Repr

namespace Screen

/-- A screen on which nothing was written. -/
def blank (broken : List Part) : Screen := ⟨[], [], broken⟩

/-- The pieces that were written, in order. -/
def pieces (s : Screen) : List (List Char) := (s.current :: s.earlier).reverse

/-- The screen with more text, if writing works. -/
def write? (s : Screen) (cs : List Char) : Option Screen :=
  if s.broken.contains .output then none else some { s with current := s.current ++ cs }

/-- The screen with more text. Text that cannot be written goes to the error stream instead, which
is not kept here. -/
def write (s : Screen) (cs : List Char) : Screen := (s.write? cs).getD s

/-- The screen when a key is asked for. -/
def cut (s : Screen) : Screen := ⟨s.current :: s.earlier, [], s.broken⟩

/-- The screen after a part of the terminal failed. -/
def breaking (s : Screen) (part : Part) : Screen := { s with broken := part :: s.broken }

end Screen

/-- The end of a line on a terminal in raw mode. -/
def newLine : List Char := ['\r', '\n']

/-- A message with the line endings of raw mode. -/
def messageChars (message : String) : List Char :=
  (lines message.toList).flatMap fun line => line ++ newLine

/-- What stands before the line that is edited. -/
def marker : List Char := "> ".toList

/-- The greatest column or row that a terminal can be told. -/
def columnLimit : Nat := 0xFFFF

/-- The column of the cursor behind the first `cursor` characters of a line, counted from one, where
columns are counted in some way. -/
def columnBy (m : Measure) (line : List Char) (cursor : Nat) : Nat :=
  min (1 + m.width marker + m.width (line.take cursor)) columnLimit

/-- The column of the cursor on a terminal. -/
def cursorColumn (line : List Char) (cursor : Nat) : Nat := columnBy terminal line cursor

/-- The instruction to put the cursor somewhere. -/
def goto (column row : Nat) : List Char := s!"\x1b[{row};{column}H".toList

/-- The instruction to clear the row of the cursor. -/
def clearRow : List Char := "\x1b[2K".toList

/-- What draws a line in a row. -/
def drawing (row : Nat) (e : Edit) : List Char :=
  goto 1 row ++ clearRow ++ marker ++ e.line ++ goto (cursorColumn e.line e.cursor) row

/-! ### The console -/

/-- A line editor and its terminal. -/
structure State where
  strokes : List Stroke
  /-- The row in which lines are edited. -/
  row : Nat
  screen : Screen
  /-- The lines entered so far that are not blank. -/
  earlier : List (List Char)
deriving DecidableEq, Repr

/-- The editor at its beginning. -/
def State.start (strokes : List Stroke) (row : Nat) (broken : List Part) : State :=
  ⟨strokes, row, .blank broken, []⟩

/-- Writing failed. -/
def writeFailed : Breakdown := ⟨none, "write failed"⟩

/-- The position of the cursor could not be told. -/
def cursorFailed : Breakdown := ⟨none, "cursor failed"⟩

/-- The terminal could not be switched to raw mode. -/
def rawModeFailed : Breakdown := ⟨some "switching terminal to raw mode", "raw failed"⟩

/-- Whether a line has nothing but blanks. -/
def isBlankLine (cs : List Char) : Bool := cs.all isBlank

/-- The line that was entered, and the editor that remembers it. -/
def entered (k : State) (screen : Screen) (strokes : List Stroke) (line : List Char) :
    Supply State :=
  let earlier := if isBlankLine line then k.earlier else k.earlier ++ [line]
  match screen.write? newLine with
  | none => .broken writeFailed { k with strokes, screen }
  | some screen => .line (String.ofList line) { k with strokes, screen, earlier }

/-- Edit a line, one stroke after the other. -/
def edit (k : State) (screen : Screen) (e : Edit) : List Stroke → Supply State
  | [] =>
    match screen.write? (drawing k.row e) with
    | none => .broken writeFailed { k with strokes := [], screen }
    | some screen => .closed { k with strokes := [], screen := screen.cut }
  | stroke :: strokes =>
    match screen.write? (drawing k.row e) with
    | none => .broken writeFailed { k with strokes := stroke :: strokes, screen }
    | some drawn =>
      let screen := drawn.cut
      match stroke with
      | .failure message => .broken ⟨none, message⟩ { k with strokes, screen }
      | .breaks part => edit k (screen.breaking part) e strokes
      | .key key =>
        match e.press k.earlier key with
        | .edited e => edit k screen e strokes
        | .closed => .closed { k with strokes, screen }
        | .entered => entered k screen strokes e.line

/-- Show the prompt and edit a line. -/
def ask (prompt : String) (k : State) : Supply State :=
  match k.screen.write? (prompt.toList ++ newLine) with
  | none => .broken writeFailed k
  | some screen =>
    if screen.broken.contains .cursorQuery then .broken cursorFailed { k with screen }
    else edit k screen (.start k.earlier.length) k.strokes

theorem strokes_entered {k : State} {screen : Screen} {strokes : List Stroke} {line : List Char}
    {text : String} {k' : State} (h : entered k screen strokes line = .line text k') :
    k'.strokes = strokes := by
  unfold entered at h
  cases hw : screen.write? newLine <;> simp only [hw] at h
  · cases h
  · cases h; rfl

theorem strokes_edit {k : State} {screen : Screen} {e : Edit} {strokes : List Stroke}
    {text : String} {k' : State} (h : edit k screen e strokes = .line text k') :
    k'.strokes.length < strokes.length := by
  induction strokes generalizing screen e with
  | nil => unfold edit at h; split at h <;> cases h
  | cons stroke strokes ih =>
    unfold edit at h
    split at h
    · cases h
    · split at h
      · cases h
      · exact Nat.lt_succ_of_lt (ih h)
      · split at h
        · exact Nat.lt_succ_of_lt (ih h)
        · cases h
        · rw [strokes_entered h]
          exact Nat.lt_succ_self _

/-- The console. -/
def console : Console State where
  display message k := { k with screen := k.screen.write (messageChars message) }
  ask := ask
  remaining k := k.strokes.length
  remaining_display _ _ := Nat.le_refl _
  remaining_ask prompt k text k' h := by
    unfold ask at h
    split at h
    · cases h
    · split at h
      · cases h
      · exact strokes_edit h

/-- A whole dialogue over the line editor. -/
def run (s : Session) (t : Files.Tree) (k : State) : Dialogue State :=
  if k.screen.broken.contains .rawMode then ⟨s, t, k, some rawModeFailed⟩
  else console.run s t k

end Reckoner.LineEditor
