/-!
# What can be wrong with an expression

A fault has a cause and a position, counted in characters from the beginning of the expression.
-/

namespace Reckoner.Expression

/-- How many parentheses, signs and exponents may be open at once. -/
def nestingLimit : Nat := 256

/-- Why an expression is refused. -/
inductive Cause where
  /-- No expression continues with this character here. -/
  | unexpected (c : Char)
  /-- The expression stops where an operand is needed. -/
  | incomplete
  /-- A group is left open; `found` stands where it should be closed, if anything does. -/
  | unclosed (found : Option Char)
  /-- Too much is open at once. -/
  | tooDeep
  /-- A run of digits and points is not a literal. -/
  | malformed (numerals : List Char)
deriving DecidableEq, Repr

/-- A cause and where it was found. -/
structure Fault where
  /-- Why the expression is refused. -/
  cause : Cause
  /-- Where. -/
  position : Nat
deriving DecidableEq, Repr

namespace Fault

/-- The character at which reading stopped, if it stopped at one. -/
def offending (f : Fault) : Option Char :=
  match f.cause with
  | .unexpected c => some c
  | .unclosed found => found
  | _ => none

/-- The text of a cause that concerns the form of the expression. -/
def formText : Cause → String
  | .unexpected c => "Unexpected: '" ++ c.toString ++ "'"
  | .incomplete => "Unexpected end of input"
  | .unclosed (some c) => "Expected ')' but found '" ++ c.toString ++ "'"
  | .unclosed none => "Expected ')' but reached end of input"
  | .tooDeep => s!"Expression nested deeper than {nestingLimit} levels"
  | .malformed cs => "Invalid number: '" ++ String.ofList cs ++ "'"

/-- The message for a fault. -/
def message (f : Fault) : String :=
  let place := s!" at position {f.position}"
  match f.cause with
  | .malformed cs => formText (.malformed cs) ++ place
  | cause => "Parse error: " ++ formText cause ++ place

end Fault

end Reckoner.Expression
