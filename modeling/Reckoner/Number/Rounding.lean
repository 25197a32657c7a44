import Reckoner.Number.Basic

/-!
# Rounding to the nearest number

A quotient of two natural numbers is rounded to an integer with `roundHalfEven` and to a number with
`ofRatio`; both go to the nearest value and, from a point halfway, to the even one. Ranks make the
second an instance of the first: within a block of equally spaced magnitudes the rank is the rounded
quotient plus a constant, and a quotient that rounds up to the end of its block gets the first rank
of the next block by itself.
-/

namespace Reckoner.Number

/-- The integer nearest to `num / den`, the even one of two that are equally near. -/
def roundHalfEven (num den : Nat) : Nat :=
  let q := num / den
  let r := num % den
  if den < 2 * r ∨ (den = 2 * r ∧ q % 2 = 1) then q + 1 else q

/-- The spacing exponent for a magnitude of `n` whole units: `n` lies in a block whose magnitudes
are multiples of two to this power. -/
def spacing (n : Nat) : Nat := n.log2 - 52

/-- The rank nearest to `num / den` units, the even one of two that are equally near. -/
def nearestRank (num den : Nat) : Nat :=
  let e := spacing (num / den)
  e * leadingBit + roundHalfEven num (den * Nat.pow 2 e)

/-- The number nearest to `num / den` units with a sign. -/
def ofUnits (negative : Bool) (num den : Nat) : Number :=
  ofRank negative (nearestRank num den)

/-- The number nearest to `num / den` with a sign. -/
def ofRatio (negative : Bool) (num den : Nat) : Number :=
  ofUnits negative (num * unitsPerOne) den

/-- The number nearest to a natural number. -/
def ofNat (n : Nat) : Number := ofRatio false n 1

end Reckoner.Number
