/-!
# The window over a list

A list that is longer than its area is seen through a window. The window starts at a given offset,
but not behind the last row, and is moved by as little as needed to show the selected row.
-/

namespace Reckoner.Screen

/-- The rows of a list that are shown: from `start` up to `stop`, which is not shown. -/
structure Window where
  /-- The first row shown. -/
  start : Nat
  /-- The row behind the last one shown. -/
  stop : Nat
deriving DecidableEq, Repr

namespace Window

/-- The window at an offset over `count` rows in an area of `height` rows. -/
def atOffset (count height offset : Nat) : Window :=
  let start := min offset (count - 1)
  ⟨start, min (start + height) count⟩

/-- The window moved to show a row. -/
def reveal (height row : Nat) (w : Window) : Window :=
  if w.stop ≤ row then ⟨max w.start (row + 1 - height), row + 1⟩
  else if row < w.start then ⟨row, min w.stop (row + height)⟩
  else w

/-- The window over `count` rows that shows the selected one. -/
def showing (count height offset selected : Nat) : Window :=
  (atOffset count height offset).reveal height (min selected (count - 1))

/-- The rows in the window. -/
def view {α : Type} (w : Window) (rows : List α) : List α :=
  (rows.drop w.start).take (w.stop - w.start)

end Window

end Reckoner.Screen
