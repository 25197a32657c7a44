/-!
# Styles and spans

A span is a piece of text in one style. The screen is drawn in the terminal's own colours except
where a style says otherwise.
-/

namespace Reckoner.Screen

/-- The colours that the program uses. -/
inductive Colour where
  | red
  | green
  | yellow
  | magenta
  | cyan
  | gray
  | darkGray
  | lightGreen
  | lightMagenta
deriving DecidableEq, Repr

/-- The ways in which text stands out other than by colour. -/
inductive Emphasis where
  | bold
  | underlined
deriving DecidableEq, Repr

/-- How a piece of text looks. -/
structure Style where
  /-- Its colour, if not the terminal's own. -/
  colour : Option Colour := none
  /-- Its emphasis, if any. -/
  emphasis : Option Emphasis := none
deriving DecidableEq, Repr

/-- Text as it is. -/
def Style.plain : Style := {}

/-- Text in a colour. -/
def Colour.style (c : Colour) : Style := { colour := some c }

/-- Bold text in a colour. -/
def Colour.bold (c : Colour) : Style := { colour := some c, emphasis := some .bold }

/-- Underlined text in a colour. -/
def Colour.underlined (c : Colour) : Style := { colour := some c, emphasis := some .underlined }

/-- A piece of text in one style. -/
structure Span where
  text : List Char
  style : Style
deriving DecidableEq, Repr

end Reckoner.Screen
