import Reckoner.Number.Rounding

/-!
# Number literals

A literal is a run of ASCII digits and points with at least one digit and at most one point. Its
value is the decimal fraction it spells, rounded once to the nearest number; there is no sign and no
exponent, and a literal of any length is read exactly.
-/

namespace Reckoner.Expression

/-- The characters that literals are made of. -/
def isNumeral (c : Char) : Bool := c.isDigit || c == '.'

/-- Whether a run of characters is a literal. -/
def isLiteral (cs : List Char) : Bool :=
  cs.all isNumeral && cs.any Char.isDigit && cs.count '.' ≤ 1

/-- The text of a literal. -/
structure Literal where
  /-- The digits and the point. -/
  chars : List Char
  /-- They make a literal. -/
  wellFormed : isLiteral chars = true
deriving DecidableEq, Repr

namespace Literal

/-- The literal with the given text, if there is one. -/
def ofChars? (cs : List Char) : Option Literal :=
  if h : isLiteral cs = true then some ⟨cs, h⟩ else none

theorem ofChars?_eq_some_iff {cs : List Char} {l : Literal} :
    ofChars? cs = some l ↔ l.chars = cs := by
  unfold ofChars?
  split <;> rename_i h
  · cases l; simp [eq_comm]
  · cases l; rename_i ds hd; simp; rintro rfl; exact h hd

/-- The digits of the literal read as a natural number, the point left out. -/
def digits (l : Literal) : Nat :=
  (l.chars.filter Char.isDigit).foldl (fun n c => 10 * n + (c.toNat - '0'.toNat)) 0

/-- How many digits stand behind the point. -/
def places (l : Literal) : Nat :=
  ((l.chars.dropWhile (· != '.')).drop 1).length

/-- The number nearest to what the literal spells. -/
def value (l : Literal) : Number :=
  Number.ofRatio false l.digits (Nat.pow 10 l.places)

end Literal

end Reckoner.Expression
