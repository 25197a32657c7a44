/-!
# Paths

A path is a text. Its *pieces* are what stands between the slashes: an empty first piece marks an
absolute path, and a piece that is empty or a single dot leads nowhere and can be left out, except
that a leading dot counts as the directory it names. The ancestors of a path are found by dropping
its last piece again and again, without looking at any file.
-/

namespace Reckoner.Files

/-- A path as it is written. -/
structure Path where
  text : String
deriving DecidableEq, Repr

/-- A piece of a path. -/
abbrev Piece := List Char

/-- A text cut at every slash. -/
def splitSlashes : List Char → List Piece
  | [] => [[]]
  | c :: cs =>
    if c = '/' then [] :: splitSlashes cs
    else (splitSlashes cs).modifyHead (c :: ·)

/-- Pieces with a slash between each two. -/
def joinSlashes (pieces : List Piece) : List Char := ['/'].intercalate pieces

theorem splitSlashes_ne_nil (cs : List Char) : splitSlashes cs ≠ [] := by
  induction cs with
  | nil => simp [splitSlashes]
  | cons c cs ih =>
    by_cases h : c = '/'
    · simp [splitSlashes, h]
    · cases hs : splitSlashes cs with
      | nil => exact absurd hs ih
      | cons p ps => simp [splitSlashes, h, hs]

/-- Whether a piece behind the first leads nowhere. -/
def isVoid (piece : Piece) : Bool := piece = [] || piece = ['.']

namespace Path

/-- The characters of the path. -/
def chars (p : Path) : List Char := p.text.toList

/-- The path with the given characters. -/
def ofChars (cs : List Char) : Path := ⟨String.ofList cs⟩

@[simp]
theorem chars_ofChars (cs : List Char) : (ofChars cs).chars = cs :=
  String.toList_ofList

/-- Whether the path has no characters. -/
def isEmpty (p : Path) : Bool := p.chars.isEmpty

/-- Whether the path starts at the root. -/
def isAbsolute (p : Path) : Bool := p.chars.head? = some '/'

/-- The second path as seen from the first: an absolute path stands for itself. -/
def join (p q : Path) : Path :=
  if q.isAbsolute then q
  else if p.isEmpty || p.chars.getLast? = some '/' then ofChars (p.chars ++ q.chars)
  else ofChars (p.chars ++ '/' :: q.chars)

/-! ### Ancestors -/

/-- The path made of a first piece and of further pieces in reverse order. -/
def assemble (first : Piece) (reversed : List Piece) : Path :=
  match reversed.dropWhile isVoid with
  | [] => if first = [] then ofChars ['/'] else ofChars first
  | rest => ofChars (joinSlashes (first :: rest.reverse))

/-- The ancestors of the path made of a first piece and of further pieces in reverse order, the
nearest first. A path of one piece lies in the empty path and the root lies in nothing. -/
def ancestorsOf (first : Piece) : List Piece → List Path
  | [] => if first = [] then [] else [ofChars []]
  | piece :: reversed =>
    if isVoid piece then ancestorsOf first reversed
    else assemble first reversed :: ancestorsOf first reversed

/-- The ancestors of a path, the nearest first. -/
def ancestors (p : Path) : List Path :=
  match splitSlashes p.chars with
  | [] => []
  | first :: rest => ancestorsOf first rest.reverse

/-- The path that a path lies in. -/
def parent? (p : Path) : Option Path := p.ancestors.head?

end Path

end Reckoner.Files
