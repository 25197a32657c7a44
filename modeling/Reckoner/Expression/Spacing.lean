import Reckoner.Expression.Literal
import Reckoner.Text.Blank

/-!
# Expressions with regular spacing

The spaced form of a text drops all its blanks and then puts one space on either side of every
operator. A sign keeps to its operand: a plus or minus is a sign unless an operand has just ended.
Two stars in a row are one operator. Any text has a spaced form, whether or not it is an expression.
-/

namespace Reckoner.Expression

/-- The characters that are operators by themselves. -/
def isOperatorChar (c : Char) : Bool :=
  c == '+' || c == '-' || c == '*' || c == '/' || c == '^' || c == '%'

/-- A text without blanks, every operator with a space on either side; `afterOperand` tells whether
an operand stands to the left. -/
def spread (afterOperand : Bool) : List Char → List Char
  | [] => []
  | '*' :: '*' :: cs => ' ' :: '*' :: '*' :: ' ' :: spread false cs
  | c :: cs =>
    if (c == '+' || c == '-') && !afterOperand then c :: spread false cs
    else if isOperatorChar c then ' ' :: c :: ' ' :: spread false cs
    else if c = '(' then c :: spread false cs
    else c :: spread true cs

/-- The spaced form of a text. -/
def spaced (cs : List Char) : List Char :=
  Text.unwords (Text.words (spread false (cs.filter (!Text.isBlank ·))))

/-- The spaced form of a string. -/
def spacedText (s : String) : String := String.ofList (spaced s.toList)

end Reckoner.Expression
