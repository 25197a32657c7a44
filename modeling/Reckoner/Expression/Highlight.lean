import Reckoner.Expression.Spacing
import Reckoner.Screen.Style

/-!
# Coloured expressions

A text is divided into spans: each maximal run of digits and points is one span, every other
character is a span by itself. Operators, numerals, parentheses and spaces have their styles, and
what no expression contains is marked.
-/

namespace Reckoner.Expression

open Screen

/-- The style of numerals. -/
def numeralStyle : Style := Colour.lightGreen.style

/-- The style of operators. -/
def operatorStyle : Style := Colour.yellow.bold

/-- The style of characters that no expression contains. -/
def invalidStyle : Style := Colour.red.underlined

/-- The style of a character that is not a numeral; parentheses take the style of the line. -/
def charStyle (line : Style) (c : Char) : Style :=
  if isOperatorChar c then operatorStyle
  else if c == '(' || c == ')' then line
  else if c == ' ' then Style.plain
  else invalidStyle

/-- Put a numeral in front of spans: it joins a run of numerals that comes first. -/
def consNumeral (c : Char) : List Span → List Span
  | s :: spans =>
    if s.style = numeralStyle ∧ s.text.head?.any isNumeral then ⟨c :: s.text, s.style⟩ :: spans
    else ⟨[c], numeralStyle⟩ :: s :: spans
  | [] => [⟨[c], numeralStyle⟩]

/-- The spans of a text. -/
def highlight (line : Style) : List Char → List Span
  | [] => []
  | c :: cs =>
    if isNumeral c then consNumeral c (highlight line cs)
    else ⟨[c], charStyle line c⟩ :: highlight line cs

end Reckoner.Expression
