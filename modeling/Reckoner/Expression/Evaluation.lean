import Reckoner.Expression.Reader

/-!
# Evaluating an expression

`evaluate` reads an expression as a value. `work` can also list every calculation made, in the order
in which they are made; it lists those before a fault as well. A plus sign, a parenthesis and a
literal are no calculations.
-/

namespace Reckoner.Expression

/-- Operands that are values. -/
def values : Interpretation Number where
  literal := Literal.value
  group := id
  sign := Sign.apply
  apply := Operator.apply

/-- The value of an expression, or what is wrong with it. -/
def evaluate (s : String) : Except Fault Number :=
  (read values s.toList).mapError Stuck.fault

/-! ### Calculations -/

/-- A value and the calculations that led to it, the latest first. -/
structure Worked where
  value : Number
  /-- The calculations in reverse order. -/
  latestFirst : List Calculation
deriving DecidableEq, Repr

namespace Worked

/-- The value after one more calculation. -/
def after (c : Calculation) (earlier : List Calculation) : Worked :=
  ⟨c.result, c :: earlier⟩

/-- The operand with a sign in front. -/
def sign : Sign → Worked → Worked
  | .plus, x => x
  | .minus, x => after (.negation x.value) x.latestFirst

/-- Two operands joined by an operator: the calculations of the left one come first. -/
def apply (op : Operator) (x y : Worked) : Worked :=
  after (.binary x.value op y.value) (y.latestFirst ++ x.latestFirst)

end Worked

/-- Operands that remember their calculations. -/
def workings : Interpretation Worked where
  literal l := ⟨l.value, []⟩
  group := id
  sign := Worked.sign
  apply := Worked.apply

/-- The calculations that a frame holds, the latest first. -/
def Frame.latestFirst : Frame Worked → List Calculation
  | .left x _ => x.latestFirst
  | _ => []

/-- All calculations that have been made, the latest first. -/
def Reading.latestFirst (r : Reading Worked) : List Calculation :=
  (match r.operand with
    | some x => x.latestFirst
    | none => []) ++ r.frames.flatMap Frame.latestFirst

/-- An evaluation with its calculations. -/
structure Evaluated where
  /-- The value, or what is wrong. -/
  outcome : Except Fault Number
  /-- The calculations in order. -/
  steps : List Calculation

/-- Evaluate an expression, listing the calculations if `detailed`. -/
def work (detailed : Bool) (s : String) : Evaluated :=
  if detailed then
    match read workings s.toList with
    | .ok x => ⟨.ok x.value, x.latestFirst.reverse⟩
    | .error e => ⟨.error e.fault, e.reading.latestFirst.reverse⟩
  else ⟨evaluate s, []⟩

end Reckoner.Expression
