/-!
# Segments and lines

A sequence is cut into *segments* behind every occurrence of a separator. Each segment comes without
its separator and with a mark that tells whether one ended it; only the last segment can lack it,
and a last segment that is empty and unended is not listed. Bytes are cut into input lines this way
and characters into lines of text.
-/

namespace Reckoner.Text

/-- A run of items up to a separator, and whether a separator ended it. -/
structure Segment (α : Type) where
  /-- The items before the separator. -/
  items : List α
  /-- Whether a separator followed. -/
  ended : Bool
deriving DecidableEq, Repr

namespace Segment

/-- The segment with one more item in front. -/
def cons {α : Type} (x : α) (s : Segment α) : Segment α :=
  ⟨x :: s.items, s.ended⟩

end Segment

/-- The segments of a sequence, cut behind every `sep`. -/
def segments {α : Type} [BEq α] (sep : α) : List α → List (Segment α)
  | [] => []
  | x :: xs =>
    if x == sep then ⟨[], true⟩ :: segments sep xs
    else match segments sep xs with
      | [] => [⟨[x], false⟩]
      | s :: rest => s.cons x :: rest

/-- The text without one carriage return at its end. -/
def dropFinalCr (cs : List Char) : List Char :=
  if cs.getLast? = some '\r' then cs.dropLast else cs

/-- What a segment of text contributes as a line: a carriage return before the line feed belongs to
the line ending, one at the end of an unended line belongs to the line. -/
def Segment.line (s : Segment Char) : List Char :=
  if s.ended then dropFinalCr s.items else s.items

/-- The lines of a text. -/
def lines (cs : List Char) : List (List Char) :=
  (segments '\n' cs).map Segment.line

end Reckoner.Text
