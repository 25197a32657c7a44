import Reckoner.Screen.Style
import Reckoner.Text.Cluster
import Reckoner.Text.Width

/-!
# A screen of cells

A canvas is a grid of cells, each with one symbol, a cluster of characters. A symbol that is two
columns wide hides the cell behind it. Areas are rectangles of cells; a block draws a border around
an area and a title over its upper edge.

Cells have no style. A canvas is what can be read on a screen; the colours of what is drawn are told
by the spans that it is drawn from and are not carried over.
-/

namespace Reckoner.Screen

open Text

/-- What stands in a cell. -/
abbrev Symbol := List Char

/-- A grid of cells. -/
structure Canvas where
  width : Nat
  height : Nat
  /-- The rows from the top, each from the left. -/
  rows : Array (Array Symbol)
deriving DecidableEq, Repr

/-- A rectangle of cells. -/
structure Area where
  x : Nat
  y : Nat
  width : Nat
  height : Nat
deriving DecidableEq, Repr

namespace Canvas

/-- A canvas of spaces. -/
def blank (width height : Nat) : Canvas :=
  ⟨width, height, Array.replicate height (Array.replicate width [' '])⟩

/-- The canvas with a symbol in a cell; a cell that is not there is left out. -/
def set (c : Canvas) (x y : Nat) (s : Symbol) : Canvas :=
  { c with rows := c.rows.modify y fun row => row.setIfInBounds x s }

/-- The canvas with a symbol in each of the cells. -/
def setAll (c : Canvas) (s : Symbol) (cells : List (Nat × Nat)) : Canvas :=
  cells.foldl (fun c (x, y) => c.set x y s) c

/-! ### Reading rows -/

/-- The text of cells of which the first `hidden` are hidden. -/
def cellText : Nat → List Symbol → List Char
  | _, [] => []
  | n + 1, _ :: cells => cellText n cells
  | 0, s :: cells => s ++ cellText (Text.width s - 1) cells

/-- The rows as text, without spaces at their ends. -/
def lines (c : Canvas) : List (List Char) :=
  c.rows.toList.map fun row =>
    ((cellText 0 row.toList).reverse.dropWhile (· == ' ')).reverse

/-! ### Writing text -/

/-- Write clusters next to each other; clusters of no width are left out. -/
def putClusters (c : Canvas) (x y : Nat) : List Symbol → Canvas
  | [] => c
  | s :: rest =>
    if Text.width s = 0 then c.putClusters x y rest
    else (c.set x y s).putClusters (x + Text.width s) y rest

/-- Write the clusters of a span into `room` columns up to the first that does not fit, blank the
cells that they hide, and give the column behind them. -/
def putSpan (c : Canvas) (x y room : Nat) : List Symbol → Canvas × Nat
  | [] => (c, x)
  | s :: rest =>
    let w := Text.width s
    if w = 0 then c.putSpan x y room rest
    else if room < w then (c, x)
    else
      let hidden := (List.range (w - 1)).map fun i => (x + 1 + i, y)
      ((c.set x y s).setAll [' '] hidden).putSpan (x + w) y (room - w) rest

/-- Write spans next to each other into `room` columns. -/
def putSpans (c : Canvas) (x y room : Nat) : List (List Char) → Canvas
  | [] => c
  | cs :: rest =>
    let (c, next) := c.putSpan x y room (clusters cs)
    c.putSpans next y (room - (next - x)) rest

end Canvas

/-! ### Blocks -/

/-- The symbols of a border. -/
structure Border where
  horizontal : Char
  vertical : Char
  topLeft : Char
  topRight : Char
  bottomLeft : Char
  bottomRight : Char
deriving DecidableEq, Repr

/-- A border of single lines. -/
def Border.single : Border := ⟨'─', '│', '┌', '┐', '└', '┘'⟩

/-- A border of double lines. -/
def Border.double : Border := ⟨'═', '║', '╔', '╗', '╚', '╝'⟩

namespace Area

/-- The area within a border. -/
def inner (a : Area) : Area := ⟨a.x + 1, a.y + 1, a.width - 2, a.height - 2⟩

/-- Whether the area has no cells. -/
def isEmpty (a : Area) : Bool := a.width = 0 || a.height = 0

/-- The last column. -/
def lastColumn (a : Area) : Nat := a.x + a.width - 1

/-- The last row. -/
def lastRow (a : Area) : Nat := a.y + a.height - 1

/-- The cells of a row of the area. -/
def rowCells (a : Area) (y : Nat) : List (Nat × Nat) :=
  (List.range a.width).map fun i => (a.x + i, y)

/-- The cells of a column of the area. -/
def columnCells (a : Area) (x : Nat) : List (Nat × Nat) :=
  (List.range a.height).map fun i => (x, a.y + i)

end Area

namespace Canvas

/-- Draw a border around an area: the sides, and the corners over them. -/
def border (c : Canvas) (b : Border) (a : Area) : Canvas :=
  if a.isEmpty then c
  else
    let c := c.setAll [b.vertical] (a.columnCells a.x)
    let c := c.setAll [b.horizontal] (a.rowCells a.y)
    let c := c.setAll [b.vertical] (a.columnCells a.lastColumn)
    let c := c.setAll [b.horizontal] (a.rowCells a.lastRow)
    let c := c.set a.lastColumn a.lastRow [b.bottomRight]
    let c := c.set a.lastColumn a.y [b.topRight]
    let c := c.set a.x a.lastRow [b.bottomLeft]
    c.set a.x a.y [b.topLeft]

/-- Draw a border around an area and a title over the middle of its upper edge. -/
def block (c : Canvas) (b : Border) (a : Area) (title : List Char) : Canvas :=
  if a.isEmpty then c
  else (c.border b a).putSpans (a.x + (a.width - Text.width title) / 2) a.y (a.width - 2) [title]

end Canvas

end Reckoner.Screen
