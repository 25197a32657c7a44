import Reckoner.Expression.Fault
import Reckoner.Expression.Operation
import Reckoner.Expression.Token

/-!
# Reading an expression

    expression := term (('+' | '-') term)*
    term       := factor (('*' | '/' | '%') factor)*
    factor     := signed (('^' | '**') factor)?
    signed     := ('+' | '-') signed | atom
    atom       := literal | '(' expression ')'

Signs bind more tightly than powers, so `-2 ^ 2` is four. The reader goes over the tokens once. It
keeps the operand that has just ended, if one has, and a stack of *frames*: what stands to the left
and waits for an operand. An operator first settles the frames that take the operand before it does
and then becomes a frame itself; a closing parenthesis and the end settle everything up to the
innermost open group. At most `nestingLimit` parentheses, signs and exponents may be open at once.

What operands are is left open. An `Interpretation` says how literals, parentheses, signs and
operators act on them, so that one reader yields values, calculations or trees.
-/

namespace Reckoner.Expression

/-- What literals, parentheses, signs and operators mean for operands of type `α`. -/
structure Interpretation (α : Type) where
  /-- The operand that a literal is. -/
  literal : Literal → α
  /-- The operand in parentheses. -/
  group : α → α
  /-- The operand with a sign in front. -/
  sign : Sign → α → α
  /-- Two operands joined by an operator. -/
  apply : Operator → α → α → α

/-! ### Frames -/

/-- Something to the left that waits for an operand. -/
inductive Frame (α : Type) where
  /-- An operand and the operator behind it. -/
  | left (operand : α) (op : Operator)
  | sign (s : Sign)
  /-- An open parenthesis. -/
  | group
deriving DecidableEq, Repr

/-- Whether a frame counts as a level of nesting. -/
def Frame.nests {α : Type} : Frame α → Bool
  | left _ op => op = .power
  | sign _ => true
  | group => true

/-- How many levels of nesting are open. -/
def depth {α : Type} (frames : List (Frame α)) : Nat := frames.countP Frame.nests

/-- Whether an operator takes the operand behind it before what follows does: another operator, or
nothing that wants an operand. -/
def Operator.settlesBefore (op : Operator) : Option Operator → Bool
  | some next => op.takesBefore next
  | none => true

variable {α : Type} (I : Interpretation α)

/-- Give the operand to the frames that take it before `next` does. -/
def settle (next : Option Operator) : List (Frame α) → α → List (Frame α) × α
  | .sign s :: frames, x => settle next frames (I.sign s x)
  | .left y op :: frames, x =>
    if op.settlesBefore next then settle next frames (I.apply op y x)
    else (.left y op :: frames, x)
  | .group :: frames, x => (.group :: frames, x)
  | [], x => ([], x)

/-! ### The reader -/

/-- How far reading has come: the frames, innermost first, and the operand that has just ended. -/
structure Reading (α : Type) where
  /-- What waits for an operand. -/
  frames : List (Frame α)
  /-- The operand that has just ended, or `none` where one must begin. -/
  operand : Option α
deriving DecidableEq, Repr

/-- A fault and how far reading had come. -/
structure Stuck (α : Type) where
  /-- What is wrong. -/
  fault : Fault
  /-- What had been read. -/
  reading : Reading α
deriving DecidableEq, Repr

/-- Reading that has not begun. -/
def Reading.start {α : Type} : Reading α := ⟨[], none⟩

/-- Put a frame on the stack, unless that opens too many levels. `stop` is the position behind the
token that opens it. -/
def push (frame : Frame α) (frames : List (Frame α)) (stop : Nat) :
    Except (Stuck α) (Reading α) :=
  if frame.nests && nestingLimit < depth (frame :: frames) then
    .error ⟨⟨.tooDeep, stop⟩, ⟨frame :: frames, none⟩⟩
  else .ok ⟨frame :: frames, none⟩

/-- The sign that a token is where an operand must begin. -/
def Lexeme.sign? : Lexeme → Option Sign
  | .plus => some .plus
  | .minus => some .minus
  | _ => none

/-- The operator that a token is behind an operand. -/
def Lexeme.operator? : Lexeme → Option Operator
  | .plus => some .plus
  | .minus => some .minus
  | .star => some .times
  | .slash => some .dividedBy
  | .percent => some .modulo
  | .caret => some .power
  | .doubleStar => some .power
  | _ => none

/-- The token `t` where an operand must begin. -/
def beginOperand (frames : List (Frame α)) (t : Token) : Except (Stuck α) (Reading α) :=
  match t.lexeme with
  | .numerals c cs =>
    match Literal.ofChars? (c :: cs) with
    | some l => .ok ⟨frames, some (I.literal l)⟩
    | none => .error ⟨⟨.malformed (c :: cs), t.start⟩, ⟨frames, none⟩⟩
  | .opening => push .group frames t.stop
  | l =>
    match l.sign? with
    | some s => push (.sign s) frames t.stop
    | none => .error ⟨⟨.unexpected l.head, t.start⟩, ⟨frames, none⟩⟩

/-- The character `found` at position `n` cannot follow the operand `x` to which the frames are
settled: a group that is open wants to be closed. -/
def refuse (frames : List (Frame α)) (x : α) (found : Char) (n : Nat) : Stuck α :=
  match frames with
  | .group :: _ => ⟨⟨.unclosed (some found), n⟩, ⟨frames, some x⟩⟩
  | _ => ⟨⟨.unexpected found, n⟩, ⟨frames, some x⟩⟩

/-- The token `t` behind the operand `x`. -/
def continueOperand (frames : List (Frame α)) (x : α) (t : Token) :
    Except (Stuck α) (Reading α) :=
  match t.lexeme.operator? with
  | some op =>
    let settled := settle I (some op) frames x
    push (.left settled.2 op) settled.1 t.stop
  | none =>
    let settled := settle I none frames x
    if t.lexeme = .closing then
      match settled.1 with
      | .group :: outer => .ok ⟨outer, some (I.group settled.2)⟩
      | frames => .error (refuse frames settled.2 t.lexeme.head t.start)
    else .error (refuse settled.1 settled.2 t.lexeme.head t.start)

/-- One token. -/
def Reading.step (r : Reading α) (t : Token) : Except (Stuck α) (Reading α) :=
  match r.operand with
  | none => beginOperand I r.frames t
  | some x => continueOperand I r.frames x t

/-- The end of the expression, at position `n`. -/
def Reading.finish (r : Reading α) (n : Nat) : Except (Stuck α) α :=
  match r.operand with
  | none => .error ⟨⟨.incomplete, n⟩, r⟩
  | some x =>
    let settled := settle I none r.frames x
    match settled.1 with
    | [] => .ok settled.2
    | frames => .error ⟨⟨.unclosed none, n⟩, ⟨frames, some settled.2⟩⟩

/-- Read the tokens of an expression that ends at position `n`. -/
def readTokens (ts : List Token) (n : Nat) : Except (Stuck α) α := do
  let r ← ts.foldlM (Reading.step I) Reading.start
  r.finish I n

/-- Read an expression. -/
def read (cs : List Char) : Except (Stuck α) α :=
  readTokens I (tokens cs) cs.length

end Reckoner.Expression
