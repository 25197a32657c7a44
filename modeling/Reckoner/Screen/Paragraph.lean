import Reckoner.Screen.Canvas
import Reckoner.Text.Blank
import Reckoner.Text.Lines

/-!
# Paragraphs

A paragraph is text in an area. A line that is not wrapped is cut at the first cluster that does not
fit. A wrapped line is broken between words where that is possible: blanks where a row begins are
left out, and a word that is wider than a row is broken within. A line feed inside a line is not
drawn and does not separate words.

Wrapping goes over the clusters once. It keeps the row that is being filled, the blanks behind it
and the word behind them, and moves blanks and word into the row when the word is complete, or when
they alone fill a row. A row is finished when row, blanks and word together reach its width; blanks
that would have stood at its end are used up by what was left of it.
-/

namespace Reckoner.Screen

open Text

/-- How wide clusters are together. -/
def columns (ss : List Symbol) : Nat :=
  ss.foldr (fun s n => Text.width s + n) 0

/-- The clusters of a line that are drawn. -/
def drawn (cs : List Char) : List Symbol := (clusters cs).filter (· != ['\n'])

/-! ### Cutting -/

/-- The clusters up to the first that does not fit into `room` columns; one that is wider than
`limit` columns is left out. -/
def cutClusters (limit room : Nat) : List Symbol → List Symbol
  | [] => []
  | s :: rest =>
    if limit < Text.width s then cutClusters limit room rest
    else if room < Text.width s then []
    else s :: cutClusters limit (room - Text.width s) rest

/-- Draw one line in the first row of an area, as much of it as fits. -/
def Canvas.cutLine (c : Canvas) (a : Area) (cs : List Char) : Canvas :=
  if a.isEmpty then c else c.putClusters a.x a.y (cutClusters a.width a.width (drawn cs))

/-! ### Wrapping -/

/-- Whether a row may be broken at a cluster. -/
def isBreak (s : Symbol) : Bool := s.all isBlank && s != ['\u00A0']

/-- A line while it is being wrapped. -/
structure Filling where
  /-- The finished rows, the latest first. -/
  finished : List (List Symbol)
  /-- The row that is being filled. -/
  row : List Symbol
  /-- The blanks behind it. -/
  blanks : List Symbol
  /-- The word behind them. -/
  word : List Symbol
  /-- Whether the last cluster belongs to a word. -/
  inWord : Bool
deriving DecidableEq, Repr

namespace Filling

/-- Nothing has been wrapped. -/
def start : Filling := ⟨[], [], [], [], false⟩

/-- Move the blanks, unless the row begins with them, and the word into the row. -/
def complete (f : Filling) : Filling :=
  let blanks := if f.row = [] then [] else f.blanks
  { f with row := f.row ++ blanks ++ f.word, blanks := [], word := [] }

/-- What is left of blanks at the beginning of which `room` columns are used up; a blank that does
not fit there any more is lost. -/
def useUp (room : Nat) : List Symbol → List Symbol
  | [] => []
  | s :: rest => if room < Text.width s then rest else useUp (room - Text.width s) rest

/-- Whether using up `room` columns reaches the end of the blanks. -/
def usesAll (room : Nat) : List Symbol → Bool
  | [] => true
  | s :: rest => if room < Text.width s then false else usesAll (room - Text.width s) rest

/-- Put a cluster behind the rest. -/
def append (f : Filling) (s : Symbol) : Filling :=
  if isBreak s then { f with blanks := f.blanks ++ [s], inWord := false }
  else { f with word := f.word ++ [s], inWord := true }

/-- Whether blanks and word have to go into the row before a cluster is added: the word has ended,
or it or the blanks fill a row that is still empty. -/
def mustComplete (limit : Nat) (f : Filling) (s : Symbol) : Bool :=
  (f.inWord && isBreak s) ||
    (f.row = [] &&
      (limit < columns f.word + Text.width s || limit < columns f.blanks + Text.width s))

/-- Whether the row has to be finished before a cluster is added. -/
def mustFinish (limit : Nat) (f : Filling) (s : Symbol) : Bool :=
  limit ≤ columns f.row ||
    (limit ≤ columns f.row + columns f.blanks + columns f.word && 0 < Text.width s)

/-- Finish the row; the blanks behind it use up what is left of it. -/
def finishRow (limit : Nat) (f : Filling) : Filling :=
  { f with
    finished := f.row :: f.finished
    row := []
    blanks := useUp (limit - columns f.row) f.blanks }

/-- Add a cluster. -/
def add (limit : Nat) (f : Filling) (s : Symbol) : Filling :=
  if limit < Text.width s then f
  else
    let f := if f.mustComplete limit s then f.complete else f
    if f.mustFinish limit s then
      let next := f.finishRow limit
      if isBreak s && usesAll (limit - columns f.row) f.blanks then next else next.append s
    else f.append s

/-- The rows of the whole line; there is at least one. -/
def rows (f : Filling) : List (List Symbol) :=
  let pending := f.blanks != [] || f.word != []
  let emptied := if pending && f.row = [] && f.word = [] then [] :: f.finished else f.finished
  let row := f.complete.row
  let all := if row = [] then emptied else row :: emptied
  if all = [] then [[]] else all.reverse

end Filling

/-- The rows of a line of text wrapped at a width. -/
def wrapLine (limit : Nat) (cs : List Char) : List (List Symbol) :=
  ((drawn cs).foldl (Filling.add limit) Filling.start).rows

/-- Where the lines of a paragraph stand. -/
inductive Alignment where
  | left
  | centre
deriving DecidableEq, Repr

/-- How far from the left edge of `limit` columns a row is drawn. -/
def Alignment.indent (limit : Nat) (row : List Symbol) : Alignment → Nat
  | left => 0
  | centre => limit / 2 - columns row / 2

/-- Draw lines of text wrapped in an area, from the row `skipped` on. -/
def Canvas.paragraph (c : Canvas) (a : Area) (alignment : Alignment) (skipped : Nat)
    (texts : List (List Char)) : Canvas :=
  if a.isEmpty then c
  else
    let shown := ((texts.flatMap (wrapLine a.width)).drop skipped).take a.height
    (shown.zipIdx a.y).foldl
      (fun c (row, y) => c.putClusters (a.x + alignment.indent a.width row) y row) c

end Reckoner.Screen
