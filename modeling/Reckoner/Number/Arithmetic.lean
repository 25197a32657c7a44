import Reckoner.Number.Rounding

/-!
# Arithmetic on numbers

Sum, difference, product, quotient and remainder are computed exactly in units and then rounded
once, with the rules of IEEE 754 for zeros, infinities and what is not a number. Raising to a power
has no finite exact form in general; it is the power function of the floating-point library, reached
through the bit patterns.
-/

namespace Reckoner.Number

/-! ### Sums -/

/-- The exact value of a finite number in units. -/
def signedUnits (negative : Bool) (rank : Nat) : Int :=
  if negative then -(units rank : Int) else units rank

/-- The number nearest to `n` units; an exact zero takes the given sign. -/
def ofSignedUnits (zeroNegative : Bool) (n : Int) : Number :=
  if n = 0 then zero zeroNegative else ofUnits (n < 0) n.natAbs 1

/-- Sum. Opposite values give a positive zero, and only two negative zeros give a negative one. -/
def add : Number → Number → Number
  | .nan, _ => .nan
  | _, .nan => .nan
  | .infinity s, .infinity t => if s = t then .infinity s else .nan
  | .infinity s, .finite _ _ => .infinity s
  | .finite _ _, .infinity t => .infinity t
  | .finite s m, .finite t n => ofSignedUnits (s && t) (signedUnits s m + signedUnits t n)

/-- Difference. -/
def sub (x y : Number) : Number := add x y.negate

/-! ### Products, quotients and remainders -/

/-- Product. -/
def mul : Number → Number → Number
  | .nan, _ => .nan
  | _, .nan => .nan
  | .infinity s, .infinity t => .infinity (s != t)
  | .infinity s, .finite t n => if n.val = 0 then .nan else .infinity (s != t)
  | .finite s m, .infinity t => if m.val = 0 then .nan else .infinity (s != t)
  | .finite s m, .finite t n => ofUnits (s != t) (units m * units n) unitsPerOne

/-- Quotient. A nonzero number divided by zero is infinite. -/
def div : Number → Number → Number
  | .nan, _ => .nan
  | _, .nan => .nan
  | .infinity _, .infinity _ => .nan
  | .infinity s, .finite t _ => .infinity (s != t)
  | .finite s _, .infinity t => zero (s != t)
  | .finite s m, .finite t n =>
    if n.val = 0 then
      if m.val = 0 then .nan else .infinity (s != t)
    else ofUnits (s != t) (units m * unitsPerOne) (units n)

/-- Remainder of the quotient cut toward zero. It has the sign of the dividend. -/
def rem : Number → Number → Number
  | .nan, _ => .nan
  | _, .nan => .nan
  | .infinity _, _ => .nan
  | .finite s m, .infinity _ => .finite s m
  | .finite s m, .finite _ n =>
    if n.val = 0 then .nan else ofUnits s (units m % units n) 1

/-! ### Powers -/

/-- The number as a hardware value. -/
def toFloat (x : Number) : Float := Float.ofBits x.toBits

/-- The number that a hardware value is. -/
def ofFloat (x : Float) : Number := ofBits x.toBits

/-- Power. -/
def pow (x y : Number) : Number := ofFloat (Float.pow x.toFloat y.toFloat)

end Reckoner.Number
