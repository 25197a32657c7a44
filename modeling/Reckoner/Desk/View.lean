import Reckoner.Desk.Help
import Reckoner.Desk.Transcript
import Reckoner.Screen.Paragraph
import Reckoner.Screen.Window

/-!
# Drawing the desk

The main view has the line in a block at the top, a row of hints below it, and the transcript in a
block that takes the rest. A screen that is too small for it shows a message instead, and the help
takes the whole screen. Drawing also brings the desk up to date with the size of the screen: it
scrolls the line to the cursor and the transcript to its end when that is wanted, and notes where
the entries begin. `prepare` does this and `picture` draws what is prepared, so the picture depends
on nothing but the desk and the size. It has the symbols in the cells and the cell of the cursor,
and no styles: those of the transcript are in its rows, `shownRows`.
-/

namespace Reckoner.Desk

open Screen Text

/-- The size of a screen. -/
structure Size where
  width : Nat
  height : Nat
deriving DecidableEq, Repr

namespace Size

/-- The smallest screen that the main view is drawn on. -/
def minimum : Size := ⟨50, 10⟩

/-- Whether the main view does not fit. -/
def isTooSmall (s : Size) : Bool := s.width < minimum.width || s.height < minimum.height

/-- The whole screen. -/
def all (s : Size) : Area := ⟨0, 0, s.width, s.height⟩

/-- The block of the line. -/
def inputArea (s : Size) : Area := ⟨0, 0, s.width, 3⟩

/-- The row of hints. -/
def hintArea (s : Size) : Area := ⟨0, 3, s.width, 1⟩

/-- The block of the transcript. -/
def transcriptArea (s : Size) : Area := ⟨0, 4, s.width, s.height - 4⟩

/-- How many characters of the line are in view, behind the marker. -/
def visibleInput (s : Size) : Nat := s.inputArea.inner.width - 2

end Size

/-! ### Bringing the desk up to date -/

/-- The desk with the notes about its transcript brought up to date. -/
def placeTranscript (d : Desk) (list : Area) : Desk :=
  if d.transcript = [] then d
  else
    let blocks := d.entryRows list.width
    { d with
      starts := startsOf blocks
      historyScroll := if d.toBottom then blocks.flatten.length - list.height else d.historyScroll
      toBottom := false }

/-- The desk brought up to date for the main view. -/
def prepareMain (d : Desk) (s : Size) : Desk :=
  if s.isTooSmall then { d with tooSmall := true }
  else
    let d := ({ d with tooSmall := false }.adjustScroll s.visibleInput).placeTranscript
      s.transcriptArea.inner
    { d with listHeight := s.transcriptArea.height }

/-- The desk brought up to date for a screen. -/
def prepare (d : Desk) (s : Size) : Desk := if d.helpShown then d else d.prepareMain s

/-! ### Drawing -/

/-- What is seen: the screen and the cell of the cursor, if there is one. -/
structure Picture where
  /-- The screen. -/
  canvas : Canvas
  /-- The column and the row of the cursor. -/
  cursor : Option (Nat × Nat)
deriving DecidableEq, Repr

/-- The greatest column there can be. -/
def columnLimit : Nat := 0xFFFF

/-- The column of the cursor behind the marker and `before` columns of the line in an area that
begins at column `x` and is `width` columns wide: it never leaves the area to the right. -/
def cursorColumn (x width before : Nat) : Nat :=
  min (x + 2 + before) (max (min (x + width) columnLimit - 1) x)

/-- The characters of the line that are in view. -/
def visibleLine (d : Desk) (visible : Nat) : List Char :=
  (d.input.drop d.inputScroll).take visible

/-- Draw the block of the line. -/
def drawInput (d : Desk) (s : Size) (c : Canvas) : Picture :=
  let title := if d.session.isAwaitingPath then " Save path (empty keeps current) "
    else " Expression "
  let area := s.inputArea.inner
  let shown := d.visibleLine s.visibleInput
  let c := c.block .single s.inputArea title.toList
  let text := '>' :: ' ' :: shown
  let c := c.cutLine area ((lines text).headD [])
  let c := if 0 < d.inputScroll then c.set area.x area.y ['<'] else c
  let c := if d.inputScroll + s.visibleInput < d.input.length then
    c.set area.lastColumn area.y ['>'] else c
  let before := width (shown.take (d.cursor - d.inputScroll))
  ⟨c, some (cursorColumn area.x area.width before, area.y)⟩

/-- The hints: keys and what they do. -/
def hints : List Char :=
  [("Enter", "Submit"), ("q", "Quit"), ("h", "History"), ("s", "Save"), ("c", "Path"),
    ("Up/Down", "Recall"), ("F1", "Help")].flatMap
    fun (key, action) => (key ++ " " ++ action ++ " ").toList

/-- The texts of the spans of a row, without their styles. -/
def rowTexts (row : Row) : List (List Char) := row.map Span.text

/-- Draw the texts of rows in an area. -/
def drawRows (area : Area) (rows : List Row) (c : Canvas) : Canvas :=
  (rows.zipIdx area.y).foldl
    (fun c (row, y) => c.putSpans area.x y area.width (rowTexts row)) c

/-- The rows of the transcript that are shown in an area. -/
def shownRows (d : Desk) (list : Area) : List Row :=
  let rows := (d.entryRows list.width).flatten
  let selected := (d.starts[d.selected]?).getD 0
  (Window.showing rows.length list.height d.historyScroll selected).view rows

/-- Draw the block of the transcript. -/
def drawTranscript (d : Desk) (s : Size) (c : Canvas) : Canvas :=
  let title := ' ' :: d.session.history.path.chars ++ [' ']
  let list := s.transcriptArea.inner
  let c := c.block .single s.transcriptArea title
  if d.transcript = [] then c.paragraph list .centre 0 (lines d.session.banner.toList)
  else drawRows list (d.shownRows list) c

/-- Draw the main view. -/
def drawMain (d : Desk) (s : Size) : Picture :=
  let input := d.drawInput s (.blank s.width s.height)
  let c := input.canvas.cutLine s.hintArea hints
  ⟨d.drawTranscript s c, input.cursor⟩

/-- Draw the message that the screen is too small. -/
def drawTooSmall (s : Size) : Picture :=
  let least := Size.minimum
  let message := s!"Terminal too small! Min size: {least.width}x{least.height}. " ++
    s!"Current: {s.width}x{s.height}"
  let c := (Canvas.blank s.width s.height).block .single s.all " Resize Required ".toList
  ⟨c.paragraph s.all.inner .centre 0
    [message.toList, [], "Please resize your terminal window".toList], none⟩

/-- How many rows of the help are left out. The screen counts them in 16 bits. -/
def helpOffset (d : Desk) : Nat := d.helpScroll % 0x10000

/-- Draw the help. -/
def drawHelp (d : Desk) (s : Size) : Picture :=
  let c := (Canvas.blank s.width s.height).block .double s.all helpTitle
  ⟨c.paragraph s.all.inner .left d.helpOffset d.helpLines, none⟩

/-- The picture of a desk that is up to date with the screen. -/
def picture (d : Desk) (s : Size) : Picture :=
  if d.helpShown then d.drawHelp s
  else if s.isTooSmall then drawTooSmall s
  else d.drawMain s

/-- Draw the desk on a screen: the desk brought up to date, and its picture. -/
def draw (d : Desk) (s : Size) : Desk × Picture :=
  let d := d.prepare s
  (d, d.picture s)

end Reckoner.Desk
