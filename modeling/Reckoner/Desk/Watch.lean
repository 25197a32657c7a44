import Reckoner.Desk.Input
import Reckoner.Desk.View

/-!
# Running the desk

The desk is drawn, and unless it is to be left the terminal is asked for an event, again and again.
Keys count when they are pressed, not when they are released or held down; the mouse counts; all
else only has the desk drawn again. Asking can fail, and that ends it too. The screen may be of
another size each time the desk is drawn.
-/

namespace Reckoner.Desk

/-! ### Events -/

/-- What happened to a key. -/
inductive Motion where
  | press
  /-- It is being held down. -/
  | hold
  | release
deriving DecidableEq, Repr

/-- An event of a terminal. -/
inductive Event where
  | key (k : Key) (held : Modifiers) (motion : Motion)
  | mouse (w : Wheel)
  /-- The screen has another size from now on. -/
  | resize (s : Size)
  /-- Text came from a clipboard. -/
  | paste (text : String)
  /-- The terminal gained or lost the focus. -/
  | focus (gained : Bool)
deriving DecidableEq, Repr

/-- What a terminal gives when it is asked for an event. -/
inductive Signal where
  | pressed (key : Key) (held : Modifiers)
  | wheel (w : Wheel)
  /-- Nothing happened, or something that does not count. -/
  | idle
  /-- Reading the event failed. -/
  | failure (message : String)
deriving DecidableEq, Repr

/-- What an event counts as. -/
def Event.signal : Event → Signal
  | key k held .press => .pressed k held
  | mouse w => .wheel w
  | key _ _ .hold | key _ _ .release | resize _ | paste _ | focus _ => .idle

/-- The desk after a signal that is no failure. -/
def heed (d : Desk) (elapsed : Nat) : Signal → Desk
  | .pressed key held => d.press key held elapsed
  | .wheel w => d.wheel w
  | .idle | .failure _ => d

/-! ### Rounds -/

/-- One time that the desk is drawn and the terminal is asked for an event. -/
structure Round where
  /-- The size of the screen. -/
  size : Size
  /-- How long the session takes if a line is submitted, in nanoseconds. -/
  elapsed : Nat
  /-- What the terminal gives. -/
  signal : Signal
deriving DecidableEq, Repr

/-- How a run of the desk ended. -/
structure Ending where
  /-- The pictures that were drawn, the latest first. -/
  latestFirst : List Picture
  desk : Desk
  /-- The rounds whose signals were not taken. -/
  left : List Round
  /-- Why the run ended before the desk was left, if it did. -/
  breakdown : Option String

/-- There was no event to read any more. -/
def noMoreSignals : String := "no more events"

/-- Go on with a run after the pictures drawn so far. Behind the rounds the desk is drawn on a
screen of size `last`. -/
def watchFrom (last : Size) (drawn : List Picture) (d : Desk) : List Round → Ending
  | [] =>
    let d := d.prepare last
    let drawn := d.picture last :: drawn
    if d.leaving then ⟨drawn, d, [], none⟩ else ⟨drawn, d, [], some noMoreSignals⟩
  | round :: rest =>
    let d := d.prepare round.size
    let drawn := d.picture round.size :: drawn
    if d.leaving then ⟨drawn, d, round :: rest, none⟩
    else match round.signal with
      | .failure message => ⟨drawn, d, rest, some message⟩
      | signal => watchFrom last drawn (d.heed round.elapsed signal) rest

/-- Run the desk on a screen that keeps its size; lines take `elapsed` nanoseconds to answer. -/
def watch (d : Desk) (s : Size) (elapsed : Nat) (signals : List Signal) : Ending :=
  watchFrom s [] d (signals.map (⟨s, elapsed, ·⟩))

end Reckoner.Desk
