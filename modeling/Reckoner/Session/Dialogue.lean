import Reckoner.Session.Basic

/-!
# Dialogues

A console shows messages and supplies lines. A dialogue shows the banner and then, until the session
is finished, asks for a line with the session's prompt, submits it and shows the replies. The end of
input finishes the session. A console that fails to supply a line ends the dialogue there and then.

A console says how much input it has left, at most; every line it supplies makes that less, so each
dialogue comes to an end.
-/

namespace Reckoner

open Files

/-- Why a console failed. -/
structure Breakdown where
  /-- What it was doing, if that is told. -/
  during : Option String
  /-- What happened. -/
  cause : String
deriving DecidableEq, Repr

/-- The breakdown on one line. -/
def Breakdown.message (b : Breakdown) : String :=
  match b.during with
  | none => b.cause
  | some activity => activity ++ ": " ++ b.cause

/-- What a console of type `κ` gives when it is asked for a line, and the console afterwards. -/
inductive Supply (κ : Type) where
  | line (text : String) (console : κ)
  /-- Nothing, because the input has ended. -/
  | closed (console : κ)
  /-- Nothing, because reading failed. -/
  | broken (why : Breakdown) (console : κ)

/-- The way to talk to consoles of type `κ`. -/
structure Console (κ : Type) where
  display : String → κ → κ
  ask : String → κ → Supply κ
  /-- How much input is left, at most. -/
  remaining : κ → Nat
  /-- Showing uses no input. -/
  remaining_display : ∀ message k, remaining (display message k) ≤ remaining k
  /-- A line uses some. -/
  remaining_ask : ∀ prompt k text k', ask prompt k = .line text k' → remaining k' < remaining k

/-- Where a dialogue has come to. -/
structure Dialogue (κ : Type) where
  session : Session
  tree : Tree
  console : κ
  /-- Why the dialogue ended before the session, if it did. -/
  breakdown : Option Breakdown

namespace Console

variable {κ : Type} (c : Console κ)

/-- Show the replies in order. -/
def displayAll (replies : List Reply) (k : κ) : κ :=
  replies.foldl (fun k r => c.display r.text k) k

theorem remaining_displayAll (replies : List Reply) (k : κ) :
    c.remaining (c.displayAll replies k) ≤ c.remaining k := by
  induction replies generalizing k with
  | nil => exact Nat.le_refl _
  | cons r rs ih => exact Nat.le_trans (ih _) (c.remaining_display _ _)

/-- Go on with a dialogue until the session is finished or the console fails. -/
def converse (s : Session) (t : Tree) (k : κ) : Dialogue κ :=
  if s.isFinished then ⟨s, t, k, none⟩
  else
    match _h : c.ask s.prompt k with
    | .broken why k' => ⟨s, t, k', some why⟩
    | .closed k' =>
      let turn := s.finish t
      ⟨turn.session, turn.tree, c.displayAll turn.replies k', none⟩
    | .line text k' =>
      let turn := s.submit t text
      converse turn.session turn.tree (c.displayAll turn.replies k')
termination_by c.remaining k
decreasing_by
  exact Nat.lt_of_le_of_lt (c.remaining_displayAll _ _) (c.remaining_ask _ _ _ _ _h)

/-- A whole dialogue. -/
def run (s : Session) (t : Tree) (k : κ) : Dialogue κ :=
  c.converse s t (c.display s.banner k)

end Console

end Reckoner
