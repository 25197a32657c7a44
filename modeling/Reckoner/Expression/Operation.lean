import Reckoner.Number.Arithmetic
import Reckoner.Number.Notation

/-!
# Operators, signs and calculations

The six operators and the two signs, how operators group, and the calculations that an evaluation is
made of. A calculation shows the operands it had as full texts; its result follows from them.
-/

namespace Reckoner.Expression

/-- The operators between two operands. -/
inductive Operator where
  | plus
  | minus
  | times
  | dividedBy
  | modulo
  | power
deriving DecidableEq, Repr

/-- The signs in front of an operand. -/
inductive Sign where
  | plus
  | minus
deriving DecidableEq, Repr

namespace Operator

/-- The sign with which calculations show the operator; both spellings of the power show alike. -/
def symbol : Operator → String
  | plus => "+"
  | minus => "-"
  | times => "*"
  | dividedBy => "/"
  | modulo => "%"
  | power => "^"

/-- How tightly the operator binds. -/
def rank : Operator → Nat
  | plus | minus => 1
  | times | dividedBy | modulo => 2
  | power => 3

/-- In `a first b second c`, whether `b` goes to `first`. Operators of one rank group from the left,
except that powers group from the right. -/
def takesBefore (first second : Operator) : Bool :=
  second.rank < first.rank || (second.rank = first.rank && first != power)

/-- The result of the operator. -/
def apply : Operator → Number → Number → Number
  | plus => Number.add
  | minus => Number.sub
  | times => Number.mul
  | dividedBy => Number.div
  | modulo => Number.rem
  | power => Number.pow

end Operator

/-- The result of a sign. -/
def Sign.apply : Sign → Number → Number
  | plus, x => x
  | minus, x => x.negate

/-- One calculation of an evaluation. -/
inductive Calculation where
  /-- The sign of an operand was changed. -/
  | negation (operand : Number)
  /-- An operator was applied to two operands. -/
  | binary (left : Number) (op : Operator) (right : Number)
deriving DecidableEq, Repr

namespace Calculation

/-- The calculation as an expression. -/
def text : Calculation → String
  | negation x => "-" ++ x.text
  | binary x op y => x.text ++ " " ++ op.symbol ++ " " ++ y.text

/-- What the calculation gives. -/
def result : Calculation → Number
  | negation x => x.negate
  | binary x op y => op.apply x y

end Calculation

end Reckoner.Expression
