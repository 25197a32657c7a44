import Reckoner.Desk.Basic

/-!
# Keys and the mouse wheel

While the help is shown, keys and wheel only scroll or close it. Otherwise keys edit the line, move
the selection, submit and quit, and the wheel scrolls the transcript.
-/

namespace Reckoner.Desk

/-- A key. -/
inductive Key where
  | char (c : Char)
  | enter
  | backspace
  | delete
  | left
  | right
  | home
  | endOfLine
  | up
  | down
  | pageUp
  | pageDown
  | escape
  | function (n : Nat)
  /-- A key that means nothing. -/
  | other
deriving DecidableEq, Repr

/-- The keys held down together with a key. -/
structure Modifiers where
  ctrl : Bool := false
  alt : Bool := false
  shift : Bool := false
deriving DecidableEq, Repr

/-- A move of the mouse wheel. -/
inductive Wheel where
  | up
  | down
  /-- Any other event of the mouse. -/
  | other
deriving DecidableEq, Repr

/-- A key while the help is shown. -/
def pressInHelp (d : Desk) : Key → Desk
  | .down => { d with helpScroll := scrollDown d.helpScroll 1 }
  | .up => { d with helpScroll := d.helpScroll - 1 }
  | .pageDown => { d with helpScroll := scrollDown d.helpScroll 10 }
  | .pageUp => { d with helpScroll := d.helpScroll - 10 }
  | .escape => d.closeHelp
  | .function n => if n = 1 then d.closeHelp else d
  | _ => d

/-- A character key. With the control key `c` and `d` quit and `u` clears the line; other characters
with control or alt mean nothing. -/
def pressChar (d : Desk) (c : Char) (held : Modifiers) : Desk :=
  if held.ctrl && (c == 'c' || c == 'd') then d.quit
  else if held.ctrl && (c == 'u' || c == 'U') then d.clearInput
  else if held.ctrl || held.alt then d
  else d.insertChar c

/-- A key while the help is hidden; `elapsed` is how long the session takes if a line is
submitted. -/
def pressOutsideHelp (d : Desk) (held : Modifiers) (elapsed : Nat) : Key → Desk
  | .char c => d.pressChar c held
  | .backspace => d.deleteBeforeCursor
  | .delete => d.deleteAtCursor
  | .left => if held.ctrl then d.moveWordLeft else d.moveLeft
  | .right => if held.ctrl then d.moveWordRight else d.moveRight
  | .home => d.moveHome
  | .endOfLine => d.moveEnd
  | .up => d.selectPrevious
  | .down => d.selectNext
  | .pageUp => d.selectPageUp
  | .pageDown => d.selectPageDown
  | .enter => d.submit elapsed
  | .function n => if n = 1 then d.openHelp else d
  | .escape | .other => d

/-- A key. -/
def press (d : Desk) (k : Key) (held : Modifiers) (elapsed : Nat) : Desk :=
  if d.helpShown then d.pressInHelp k else d.pressOutsideHelp held elapsed k

/-- How many rows the wheel scrolls. -/
def wheelStep : Nat := 3

/-- An offset after a move of the wheel. -/
def Wheel.turn (offset : Nat) : Wheel → Nat
  | up => offset - wheelStep
  | down => scrollDown offset wheelStep
  | other => offset

/-- A move of the wheel. -/
def wheel (d : Desk) (w : Wheel) : Desk :=
  if d.helpShown then { d with helpScroll := w.turn d.helpScroll }
  else { d with historyScroll := w.turn d.historyScroll }

end Reckoner.Desk
