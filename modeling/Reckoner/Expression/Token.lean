import Reckoner.Expression.Literal
import Reckoner.Text.Blank

/-!
# Tokens

An expression is cut into tokens from left to right. A maximal run of digits and points is one
token, two stars in a row are one token and are paired from the left, every other character that is
not blank is a token by itself. Blanks separate and are otherwise dropped. The scanner reads one
character at a time and remembers what it has begun: a run, a single star, or nothing.
-/

namespace Reckoner.Expression

/-- What a token is. -/
inductive Lexeme where
  /-- A run of digits and points, which need not be a literal. -/
  | numerals (first : Char) (rest : List Char)
  | plus
  | minus
  | star
  | slash
  | percent
  | caret
  | doubleStar
  | opening
  | closing
  /-- A character that no expression contains. -/
  | other (c : Char)
deriving DecidableEq, Repr

namespace Lexeme

/-- The characters of a token. -/
def chars : Lexeme → List Char
  | numerals c cs => c :: cs
  | plus => ['+']
  | minus => ['-']
  | star => ['*']
  | slash => ['/']
  | percent => ['%']
  | caret => ['^']
  | doubleStar => ['*', '*']
  | opening => ['(']
  | closing => [')']
  | other c => [c]

/-- The first character of a token. -/
def head : Lexeme → Char
  | numerals c _ => c
  | plus => '+'
  | minus => '-'
  | star => '*'
  | slash => '/'
  | percent => '%'
  | caret => '^'
  | doubleStar => '*'
  | opening => '('
  | closing => ')'
  | other c => c

theorem head?_chars (l : Lexeme) : l.chars.head? = some l.head := by
  cases l <;> rfl

/-- The token that a character makes which is neither a numeral nor a star. -/
def ofChar (c : Char) : Lexeme :=
  match c with
  | '+' => plus
  | '-' => minus
  | '/' => slash
  | '%' => percent
  | '^' => caret
  | '(' => opening
  | ')' => closing
  | c => other c

end Lexeme

/-- A token and where it begins, counted in characters. -/
structure Token where
  /-- What the token is. -/
  lexeme : Lexeme
  /-- The position of its first character. -/
  start : Nat
deriving DecidableEq, Repr

/-- The position behind the token. -/
def Token.stop (t : Token) : Nat := t.start + t.lexeme.chars.length

/-! ### The scanner -/

/-- What the scanner has begun and not yet released. -/
inductive Pending where
  | nothing
  /-- A run that begins at `start`; its later characters are kept in reverse. -/
  | numerals (start : Nat) (first : Char) (reversed : List Char)
  | star (start : Nat)
deriving DecidableEq, Repr

namespace Pending

/-- The token that what was begun makes if nothing more belongs to it. -/
def release : Pending → List Token
  | nothing => []
  | numerals start c cs => [⟨.numerals c cs.reverse, start⟩]
  | star start => [⟨.star, start⟩]

/-- The tokens that the character at position `n` completes, and what is begun after it. -/
def step (p : Pending) (n : Nat) (c : Char) : List Token × Pending :=
  if isNumeral c then
    match p with
    | numerals start first cs => ([], numerals start first (c :: cs))
    | p => (p.release, numerals n c [])
  else if c = '*' then
    match p with
    | star start => ([⟨.doubleStar, start⟩], nothing)
    | p => (p.release, star n)
  else if Text.isBlank c then (p.release, nothing)
  else (p.release ++ [⟨Lexeme.ofChar c, n⟩], nothing)

end Pending

/-- The tokens of a text that begins at position `n`, after what has been begun before. -/
def scanFrom : Pending → Nat → List Char → List Token
  | p, _, [] => p.release
  | p, n, c :: cs => (p.step n c).1 ++ scanFrom (p.step n c).2 (n + 1) cs

/-- The tokens of a text. -/
def tokens (cs : List Char) : List Token := scanFrom .nothing 0 cs

end Reckoner.Expression
