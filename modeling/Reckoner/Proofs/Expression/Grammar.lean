import Mathlib.Order.Lattice
import Reckoner.Proofs.Expression.Cut
import Reckoner.Proofs.Expression.Hom

/-!
# The grammar of expressions

    expression := term (('+' | '-') term)*
    term       := factor (('*' | '/' | '%') factor)*
    factor     := signed (('^' | '**') factor)?
    signed     := ('+' | '-') signed | atom
    atom       := literal | '(' expression ')'

A *derivation* is a tree of these rules, and `Derives c d ls` says that it derives the tokens `ls`
from the category `c`. The repetitions group from the left, so that a derivation of a sum has a
shorter sum as its left part; a power has a factor as its right part and groups from the right.

A `Parse` of a text cuts it into tokens and derives an expression from them in which no point is
enclosed by more parentheses, signs and exponents than are allowed. Blanks may stand in front of
every token and in front of the end.
-/

namespace Reckoner.Expression

/-! ### Derivations -/

/-- A derivation of an expression or of a part of one. -/
inductive Derivation where
  | literal (l : Literal)
  /-- An expression in parentheses. -/
  | group (inner : Derivation)
  /-- A sign and its operand. -/
  | sign (s : Sign) (operand : Derivation)
  /-- Two operands and the operator between them. -/
  | binary (left : Derivation) (op : Operator) (right : Derivation)
deriving DecidableEq, Repr

namespace Derivation

/-- What a derivation means under an interpretation. -/
def fold {α : Type} (I : Interpretation α) : Derivation → α
  | literal l => I.literal l
  | group d => I.group (d.fold I)
  | sign s d => I.sign s (d.fold I)
  | binary d op e => I.apply op (d.fold I) (e.fold I)

/-- The value of a derivation: its operations carried out on the values of its operands. -/
def value : Derivation → Number := fold values

/-- The greatest number of parentheses, signs and exponents that enclose a point. -/
def nesting : Derivation → Nat
  | literal _ => 0
  | group d => d.nesting + 1
  | sign _ d => d.nesting + 1
  | binary d op e => max d.nesting (e.nesting + if op = .power then 1 else 0)

/-- Operands that are derivations. -/
def trees : Interpretation Derivation := ⟨literal, group, sign, fun op d e => binary d op e⟩

/-- The meanings of the parts make the meaning of the whole. -/
theorem hom_fold {α : Type} (I : Interpretation α) : trees.Hom I (fold I) where
  map_literal _ := rfl
  map_group _ := rfl
  map_sign _ _ := rfl
  map_apply _ _ _ := rfl

end Derivation

/-! ### Rules -/

/-- The kinds of parts of an expression, each wider than the one before. -/
inductive Category where
  | atom
  | signed
  | factor
  | term
  | expression
deriving DecidableEq, Repr

/-- The token of a sign. -/
def Sign.lexeme : Sign → Lexeme
  | plus => .plus
  | minus => .minus

/-- The tokens of an operator. -/
def Operator.lexemes : Operator → List Lexeme
  | plus => [.plus]
  | minus => [.minus]
  | times => [.star]
  | dividedBy => [.slash]
  | modulo => [.percent]
  | power => [.caret, .doubleStar]

/-- The derivation `d` derives the tokens `ls` from the category `c`. -/
inductive Derives : Category → Derivation → List Lexeme → Prop
  | literal {l : Literal} {c : Char} {cs : List Char} (h : l.chars = c :: cs) :
      Derives .atom (.literal l) [.numerals c cs]
  | group {d : Derivation} {ls : List Lexeme} (h : Derives .expression d ls) :
      Derives .atom (.group d) (.opening :: ls ++ [.closing])
  | atom {d : Derivation} {ls : List Lexeme} (h : Derives .atom d ls) : Derives .signed d ls
  | sign {s : Sign} {d : Derivation} {ls : List Lexeme} (h : Derives .signed d ls) :
      Derives .signed (.sign s d) (s.lexeme :: ls)
  | signed {d : Derivation} {ls : List Lexeme} (h : Derives .signed d ls) : Derives .factor d ls
  | power {d e : Derivation} {ls ms : List Lexeme} {l : Lexeme} (h : Derives .signed d ls)
      (hl : l ∈ Operator.power.lexemes) (h' : Derives .factor e ms) :
      Derives .factor (.binary d .power e) (ls ++ l :: ms)
  | factor {d : Derivation} {ls : List Lexeme} (h : Derives .factor d ls) : Derives .term d ls
  | product {d e : Derivation} {ls ms : List Lexeme} {op : Operator} {l : Lexeme}
      (h : Derives .term d ls) (hop : op ∈ [.times, .dividedBy, .modulo]) (hl : l ∈ op.lexemes)
      (h' : Derives .factor e ms) : Derives .term (.binary d op e) (ls ++ l :: ms)
  | term {d : Derivation} {ls : List Lexeme} (h : Derives .term d ls) : Derives .expression d ls
  | sum {d e : Derivation} {ls ms : List Lexeme} {op : Operator} {l : Lexeme}
      (h : Derives .expression d ls) (hop : op ∈ [.plus, .minus]) (hl : l ∈ op.lexemes)
      (h' : Derives .term e ms) : Derives .expression (.binary d op e) (ls ++ l :: ms)

/-- A derivation of a text, with the tokens that the text is cut into. -/
structure Parse (cs : List Char) where
  tokens : List Token
  tree : Derivation
  /-- The tokens make up the text. -/
  cut : Cut 0 tokens cs
  /-- The derivation derives them as an expression. -/
  derives : Derives .expression tree (tokens.map Token.lexeme)
  /-- No point of the derivation is too deep. -/
  nesting_le : tree.nesting ≤ nestingLimit

/-! ### Categories and operators -/

namespace Category

/-- The place of a category in the order of width. -/
def level : Category → Nat
  | atom => 0
  | signed => 1
  | factor => 2
  | term => 3
  | expression => 4

end Category

namespace Operator

/-- What an operator and its operands are together. -/
def whole : Operator → Category
  | plus | minus => .expression
  | times | dividedBy | modulo => .term
  | power => .factor

/-- What the left operand of an operator is. -/
def leftPart : Operator → Category
  | plus | minus => .expression
  | times | dividedBy | modulo => .term
  | power => .signed

/-- What the right operand of an operator is. -/
def rightPart : Operator → Category
  | plus | minus => .term
  | times | dividedBy | modulo => .factor
  | power => .factor

theorem operator?_eq_some_iff {l : Lexeme} {op : Operator} :
    l.operator? = some op ↔ l ∈ op.lexemes := by
  cases op <;> cases l <;> simp [Lexeme.operator?, lexemes]

end Operator

namespace Derives

variable {c c' : Category} {d e : Derivation} {ls ms : List Lexeme}

/-- A part of a category is one of each wider category. -/
theorem widen (h : Derives c d ls) (hc : c.level ≤ c'.level) : Derives c' d ls := by
  have toSigned : c.level ≤ 1 → Derives .signed d ls := by
    intro hc
    cases c with
    | atom => exact atom h
    | signed => exact h
    | factor | term | expression => exact absurd hc (by decide)
  have toFactor : c.level ≤ 2 → Derives .factor d ls := by
    intro hc
    cases c with
    | factor => exact h
    | atom | signed => exact signed (toSigned (by decide))
    | term | expression => exact absurd hc (by decide)
  have toTerm : c.level ≤ 3 → Derives .term d ls := by
    intro hc
    cases c with
    | term => exact h
    | atom | signed | factor => exact factor (toFactor (by decide))
    | expression => exact absurd hc (by decide)
  cases c' with
  | atom =>
    cases c with
    | atom => exact h
    | _ => exact absurd hc (by decide)
  | signed => exact toSigned hc
  | factor => exact toFactor hc
  | term => exact toTerm hc
  | expression =>
    cases c with
    | expression => exact h
    | _ => exact term (toTerm (by decide))

/-- The rules for operators in one. -/
theorem binary {op : Operator} {l : Lexeme} (h : Derives op.leftPart d ls)
    (hl : l ∈ op.lexemes) (h' : Derives op.rightPart e ms) :
    Derives op.whole (.binary d op e) (ls ++ l :: ms) := by
  cases op with
  | plus | minus => exact sum h (by decide) hl h'
  | times | dividedBy | modulo => exact product h (by decide) hl h'
  | power => exact power h hl h'

end Derives

end Reckoner.Expression
