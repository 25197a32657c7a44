import Reckoner.Expression.Evaluation
import Reckoner.History

/-!
# Replies

What a session answers to a line, and how a reply reads.
-/

namespace Reckoner

open Expression

/-- An answer of a session. -/
inductive Reply where
  /-- An expression has a value; the calculations are listed if they were asked for. -/
  | value (expression : String) (value : Number) (steps : List Calculation)
  /-- An expression is refused. -/
  | failed (expression : String) (fault : Fault)
  | history (entries : List String)
  | saved (path : Files.Path)
  | saveFailed (path : Files.Path) (error : History.SaveError)
  /-- The history has this path from now on. -/
  | pathChanged (path : Files.Path)
  /-- The session has ended. -/
  | goodbye
deriving DecidableEq, Repr

namespace Reply

/-- The line that shows a calculation under its number. -/
def stepText (number : Nat) (c : Calculation) : String :=
  s!"\n  Step {number}: " ++ c.text ++ " = " ++ c.result.text

/-- The text of a reply. -/
def text : Reply → String
  | value _ x steps =>
    "Result: " ++ x.text ++
      String.join ((steps.zipIdx 1).map fun (c, number) => stepText number c)
  | failed e f => "Invalid expression: " ++ e ++ " (" ++ f.message ++ ")"
  | history [] => "History is empty."
  | history entries => "\n".intercalate entries
  | saved p => "History saved to: " ++ p.text
  | saveFailed p e => "Error saving history to " ++ p.text ++ ": " ++ e.message
  | pathChanged p => "History file path changed to: " ++ p.text
  | goodbye => "Exiting calculator."

end Reply

end Reckoner
