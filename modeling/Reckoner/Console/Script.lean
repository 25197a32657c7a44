import Reckoner.Session.Dialogue

/-!
# A console that follows a script

The lines, and the failures to read one, are given beforehand; what the session asks and says is
kept in order.
-/

namespace Reckoner.Script

/-- What a script gives when it is asked for a line. -/
inductive Cue where
  | line (text : String)
  | failure (message : String)
deriving DecidableEq, Repr

/-- What a session did with the console. -/
inductive Event where
  | asked (prompt : String)
  | shown (message : String)
deriving DecidableEq, Repr

/-- The cues to come and the events so far, the latest first. -/
structure State where
  cues : List Cue
  /-- The events so far, the latest first. -/
  latestFirst : List Event
deriving DecidableEq, Repr

/-- The console at the beginning of a script. -/
def State.start (cues : List Cue) : State := ⟨cues, []⟩

/-- The events so far, in order. -/
def State.log (k : State) : List Event := k.latestFirst.reverse

/-- Follow the script by one cue. -/
def ask (prompt : String) (k : State) : Supply State :=
  let events := .asked prompt :: k.latestFirst
  match k.cues with
  | [] => .closed ⟨[], events⟩
  | .failure message :: cues => .broken ⟨none, message⟩ ⟨cues, events⟩
  | .line text :: cues => .line text ⟨cues, events⟩

/-- The console. -/
def console : Console State where
  display message k := ⟨k.cues, .shown message :: k.latestFirst⟩
  ask := ask
  remaining k := k.cues.length
  remaining_display _ _ := Nat.le_refl _
  remaining_ask prompt k text k' h := by
    unfold ask at h
    split at h <;> simp_all
    obtain ⟨_, rfl⟩ := h
    simp

end Reckoner.Script
