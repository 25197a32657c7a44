import Reckoner.Desk.Basic
import Reckoner.Expression.Highlight
import Reckoner.Text.Wrap

/-!
# The rows of the transcript

An entry is shown as its line, in the spaced form and coloured unless it is a path, with the value
or the fault behind the first row, and below it the calculations with the time they took and the
other replies. Entries are separated by a rule.
-/

namespace Reckoner

open Expression Screen Text

namespace Desk

/-- A row of the transcript. -/
abbrev Row := List Span

/-- A span of a string. -/
def spanOf (s : String) (style : Style) : Span := ⟨s.toList, style⟩

/-- Lines below an entry, the first one with a dash. -/
def indented (style : Style) : List (List Char) → List Row
  | [] => []
  | line :: rest =>
    [⟨"    - ".toList ++ line, style⟩] ::
      rest.map fun line => [⟨"      ".toList ++ line, style⟩]

/-- What stands behind the first row of the line. -/
def outcomeSpans : Option Reply → List Span
  | some (.value _ x _) =>
    [spanOf " = " Colour.gray.style, spanOf x.compactText Colour.lightMagenta.bold]
  | some (.failed _ f) =>
    [spanOf " = " Colour.gray.style, spanOf ("Error: " ++ f.message) Colour.red.bold]
  | _ => []

/-- The style of a line; the selected one stands out. -/
def lineStyle (selected : Bool) : Style :=
  if selected then Colour.yellow.style else Colour.cyan.style

/-- The spans of a row of the line. -/
def lineSpans (isPath : Bool) (style : Style) (cs : List Char) : List Span :=
  if isPath then [⟨cs, style⟩] else highlight style cs

/-- A time in nanoseconds as milliseconds. -/
def milliseconds (nanoseconds : Nat) : Number :=
  let billion := 1000000000
  let seconds := Number.add (.ofNat (nanoseconds / billion))
    (Number.div (.ofNat (nanoseconds % billion)) (.ofNat billion))
  Number.mul seconds (.ofNat 1000)

/-- The line that tells how long a detailed evaluation took. -/
def timeText (elapsed : Nat) : String :=
  "Time: " ++ Number.fixedText 6 (milliseconds elapsed) ++ " ms"

/-- The text of a calculation under its number. -/
def stepText (number : Nat) (c : Calculation) : String :=
  s!"Step {number}: " ++ c.text ++ " = " ++ c.result.compactText

/-- The rows below the line for one reply. -/
def replyRows (elapsed width : Nat) : Reply → List Row
  | .value _ _ [] => []
  | .value _ _ steps =>
    (steps.zipIdx 1).flatMap (fun (c, number) =>
        indented Colour.darkGray.style (wrap width (stepText number c).toList)) ++
      indented Colour.magenta.style [(timeText elapsed).toList]
  | .failed _ _ => []
  | .saveFailed p e =>
    indented Colour.red.style (wrap width (Reply.saveFailed p e).text.toList)
  | reply =>
    (lines reply.text.toList).flatMap fun line => indented Colour.gray.style (wrap width line)

end Desk

namespace Entry

open Desk

/-- The text that is shown for the line. -/
def shownLine (e : Entry) : List Char := if e.isPath then e.line else spaced e.line

/-- The rows of the line. -/
def lineRows (e : Entry) (selected : Bool) (width : Nat) : List Row :=
  let style := lineStyle selected
  match wrap width e.shownLine with
  | [] => []
  | first :: rest =>
    (spanOf "> " Colour.green.style :: lineSpans e.isPath style first ++
        outcomeSpans e.replies.head?) ::
      rest.map fun cs => spanOf "  " Style.plain :: lineSpans e.isPath style cs

/-- The rows of an entry whose text is wrapped at a width. -/
def rows (e : Entry) (selected : Bool) (width : Nat) : List Row :=
  e.lineRows selected width ++ e.replies.flatMap (replyRows e.elapsed width)

end Entry

namespace Desk

/-- The rule between two entries. -/
def rule (width : Nat) : Row := [⟨List.replicate width '-', Colour.darkGray.style⟩]

/-- How much narrower than the list its text is. -/
def listMargin : Nat := 4

/-- The rows of each entry for a list of some width, the rule behind it counted in. -/
def entryRows (d : Desk) (width : Nat) : List (List Row) :=
  (d.transcript.zipIdx).map fun (e, i) =>
    let rows := e.rows (i = d.selected) (width - listMargin)
    if i + 1 < d.transcript.length then rows ++ [rule width] else rows

/-- The first row of each block of rows. -/
def startsOf (blocks : List (List Row)) : List Nat :=
  (blocks.foldl (fun (starts, next) block => (starts ++ [next], next + block.length)) ([], 0)).1

end Desk

end Reckoner
