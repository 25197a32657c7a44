import Reckoner.Number.Decimal

/-!
# How numbers are written

Three notations. The *full* text is the shortest positional decimal that reads back; it is used for
results, calculations and history entries. The *fixed* text has a given number of places. The
*compact* text of the terminal view has six places at most, or seven significant digits and an
exponent when the magnitude is very large or very small.
-/

namespace Reckoner.Number

/-! ### Positional decimals -/

/-- The digits of a decimal fraction with a point before the last `places` of them, and at least one
digit before the point; no point when there are no places. -/
def Decimal.chars (d : Decimal) : List Char :=
  let ds := (Nat.toDigits 10 d.digits).leftpad (d.places + 1) '0'
  if d.places = 0 then ds
  else ds.take (ds.length - d.places) ++ '.' :: ds.drop (ds.length - d.places)

/-- A minus sign in front of the text of a negative number. -/
def withSign (negative : Bool) (cs : List Char) : List Char :=
  if negative then '-' :: cs else cs

/-- The text of a number whose magnitude, if finite, is written by `magnitude`. -/
def charsWith (magnitude : Nat → List Char) : Number → List Char
  | .nan => "NaN".toList
  | .infinity s => withSign s "Infinity".toList
  | .finite s r => withSign s (magnitude r)

/-- The full text of a number. -/
def chars (x : Number) : List Char :=
  x.charsWith fun r => (shortest r).chars

/-- The full text of a number. -/
def text (x : Number) : String := String.ofList x.chars

@[simp]
theorem toList_text (x : Number) : x.text.toList = x.chars :=
  String.toList_ofList

/-! ### Fixed places -/

/-- The decimal with the given number of places that is nearest to the magnitude of a rank. -/
def fixed (places rank : Nat) : Decimal :=
  ⟨roundHalfEven (units rank * Nat.pow 10 places) unitsPerOne, places⟩

/-- The text of a number with the given number of places. -/
def fixedText (places : Nat) (x : Number) : String :=
  String.ofList (x.charsWith fun r => (fixed places r).chars)

/-! ### Exponents -/

/-- A decimal in exponent form: `digits / 10 ^ (figures - 1) * 10 ^ exponent`, where `figures` is
how many digits there are. -/
structure Scientific where
  digits : Nat
  /-- The power of ten of the first digit. -/
  exponent : Int
deriving DecidableEq, Repr

/-- The text in exponent form, the point behind the first digit. -/
def Scientific.chars (d : Scientific) : List Char :=
  match Nat.toDigits 10 d.digits with
  | [] => []
  | c :: cs => c :: '.' :: cs ++ 'e' :: (toString d.exponent).toList

/-- The decimal with `extra + 1` significant digits that is nearest to the magnitude of a positive
rank. A magnitude that rounds up to a power of ten gets the next exponent. -/
def scientific (extra rank : Nat) : Scientific :=
  let value := 2 * units rank * halfUnit
  let figures := (Nat.toDigits 10 value).length
  let digits := roundHalfEven value (Nat.pow 10 (figures - 1 - extra))
  let exponent : Int := (figures : Int) - 1 - finestPlaces
  if digits = Nat.pow 10 (extra + 1) then ⟨Nat.pow 10 extra, exponent + 1⟩ else ⟨digits, exponent⟩

/-! ### Compact text -/

/-- The text without the zeros at its end and then without a point at its end. -/
def dropTrailingZeros (cs : List Char) : List Char :=
  ((cs.reverse.dropWhile (· == '0')).dropWhile (· == '.')).reverse

/-- The rank of the number nearest to `10 ^ 10`, the largest that is written positionally. -/
def compactMaximum : Nat := nearestRank (Nat.pow 10 10 * unitsPerOne) 1

/-- The rank of the number nearest to `10 ^ -5`, the smallest above zero that is written
positionally. -/
def compactMinimum : Nat := nearestRank unitsPerOne (Nat.pow 10 5)

/-- Whether the compact text of a magnitude has an exponent. -/
def needsExponent (rank : Nat) : Bool :=
  compactMaximum < rank || (0 < rank && rank < compactMinimum)

/-- The compact text of the magnitude of a rank. -/
def compactMagnitude (rank : Nat) : List Char :=
  if needsExponent rank then (scientific 6 rank).chars
  else dropTrailingZeros (fixed 6 rank).chars

/-- The compact text of a number. -/
def compactText (x : Number) : String :=
  String.ofList (x.charsWith compactMagnitude)

end Reckoner.Number
