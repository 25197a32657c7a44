import Reckoner.Number.Rounding

/-!
# Decimal digits of a number

A positive magnitude is written with the fewest digits that read back as the same number, and among
those with the digits nearest to it. The magnitudes that round to a number form an interval around
it, whose ends belong to it exactly if the rank is even. A unit is `5 ^ 1074 / 10 ^ 1074`, so the
number, the ends of its interval and all decimal fractions that matter are whole multiples of
`10 ^ -1075`, and the search runs on natural numbers: from coarse powers of ten to finer ones, the
first one with a multiple inside the interval is the answer.
-/

namespace Reckoner.Number

/-- A decimal fraction: `digits / 10 ^ places`. -/
structure Decimal where
  /-- The digits, read as a natural number. -/
  digits : Nat
  /-- How many of them stand behind the point. -/
  places : Nat
deriving DecidableEq, Repr

/-- The places that any number and any end of its interval need. -/
def finestPlaces : Nat := 1075

/-- Half a unit, in steps of `10 ^ -finestPlaces`. -/
def halfUnit : Nat := Nat.pow 5 1075

/-- The values that read as one number, in steps of `10 ^ -finestPlaces`. -/
structure Interval where
  /-- The lower end. -/
  low : Nat
  value : Nat
  /-- The upper end. -/
  high : Nat
  /-- Whether the ends belong to the interval. -/
  closed : Bool
deriving DecidableEq, Repr

namespace Interval

/-- The values that round to the magnitude of a positive rank. -/
def ofRank (rank : Nat) : Interval where
  low := (units (rank - 1) + units rank) * halfUnit
  value := 2 * units rank * halfUnit
  high := (units rank + units (rank + 1)) * halfUnit
  closed := rank % 2 = 0

/-- Whether a value lies in the interval. -/
def contains (i : Interval) (x : Nat) : Bool :=
  if i.closed then i.low ≤ x && x ≤ i.high else i.low < x && x < i.high

/-- The multiple of `step` in the interval that is nearest to the number, as a count of steps; the
larger of two that are equally near. -/
def nearestMultiple? (i : Interval) (step : Nat) : Option Nat :=
  let q := i.value / step
  let below := i.contains (q * step)
  let above := i.contains ((q + 1) * step)
  if below && (!above || i.value - q * step < (q + 1) * step - i.value) then some q
  else if above then some (q + 1)
  else none

/-- The first hit among the powers of ten from `10 ^ k` downward, with its exponent. -/
def coarsest (i : Interval) : Nat → Nat × Nat
  | 0 => (i.value, 0)
  | k + 1 =>
    match i.nearestMultiple? (Nat.pow 10 (k + 1)) with
    | some q => (q, k + 1)
    | none => i.coarsest k

end Interval

/-- An exponent whose power of ten exceeds `n`. -/
def decimalBound (n : Nat) : Nat := n.log2 * 30103 / 100000 + 1

/-- The shortest decimal fraction that reads back as the magnitude of a rank. -/
def shortest (rank : Nat) : Decimal :=
  if rank = 0 then ⟨0, 0⟩
  else
    let i := Interval.ofRank rank
    let hit := i.coarsest (decimalBound i.high)
    if hit.2 ≤ finestPlaces then ⟨hit.1, finestPlaces - hit.2⟩
    else ⟨hit.1 * Nat.pow 10 (hit.2 - finestPlaces), 0⟩

end Reckoner.Number
