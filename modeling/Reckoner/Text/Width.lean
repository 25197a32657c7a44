import Reckoner.Text.Invisible
import Reckoner.Text.Marks
import Reckoner.Text.Wide

/-!
# How wide text is on a screen

Most characters take up one column, the wide ones two, and marks, line feeds and what cannot be seen
none; a single sign of Khmer takes up three. Some symbols are *ambiguous*: terminals for East Asian
text draw them two columns wide. `charWidth` counts them as one column and `wideCharWidth` as two,
so the second is never less than the first. The width of a text is the sum of the widths of its
characters.

Little of this matters to what is done with widths. A `Measure` has what does: two ways to count the
columns of a character, of which the second never counts fewer, and one column for each printable
character of ASCII. Texts are measured and wrapped with any measure; `terminal` is the measure with
the widths above.
-/

namespace Reckoner.Text

/-- The only character of three columns, the Khmer sign for "and so on". -/
def threeColumnSign : Char := '\u17D8'

/-- How many columns a character takes up. -/
def charWidth (c : Char) : Nat :=
  if 0x20 ≤ c.toNat && c.toNat < 0x7F then 1
  else if c = '\n' || marks.contains c || invisible.contains c then 0
  else if c = threeColumnSign then 3
  else if doubleWidth.contains c then 2
  else 1

theorem charWidth_le (c : Char) : charWidth c ≤ 3 := by
  unfold charWidth
  repeat' split
  all_goals decide

theorem charWidth_of_printable {c : Char} (hlow : 0x20 ≤ c.toNat) (hhigh : c.toNat < 0x7F) :
    charWidth c = 1 := by
  simp [charWidth, hlow, hhigh]

/-- How many columns a character takes up on a terminal for East Asian text. -/
def wideCharWidth (c : Char) : Nat :=
  if ambiguous.contains c then max 2 (charWidth c) else charWidth c

theorem charWidth_le_wideCharWidth (c : Char) : charWidth c ≤ wideCharWidth c := by
  unfold wideCharWidth
  split
  · exact Nat.le_max_right _ _
  · exact Nat.le_refl _

/-! ### Measures -/

/-- A way to count columns. -/
structure Measure where
  /-- How many columns a character takes up. -/
  narrow : Char → Nat
  /-- How many columns a character takes up where ambiguous symbols are wide. -/
  wide : Char → Nat
  narrow_le_wide : ∀ c, narrow c ≤ wide c
  /-- The printable characters of ASCII take up one column each. -/
  narrow_of_printable : ∀ c, 0x20 ≤ c.toNat → c.toNat < 0x7F → narrow c = 1

namespace Measure

/-- How many columns a text takes up. -/
def width (m : Measure) : List Char → Nat
  | [] => 0
  | c :: cs => m.narrow c + m.width cs

variable (m : Measure)

theorem width_append (cs ds : List Char) : m.width (cs ++ ds) = m.width cs + m.width ds := by
  induction cs with
  | nil => simp [width]
  | cons c cs ih => simp [width, ih, Nat.add_assoc]

/-- If every character takes up one column, a text takes up as many as it has characters. -/
theorem width_eq_length {cs : List Char} (h : ∀ c ∈ cs, m.narrow c = 1) :
    m.width cs = cs.length := by
  induction cs with
  | nil => rfl
  | cons c cs ih =>
    have hcs : m.width cs = cs.length := ih fun e he => h e (List.mem_cons_of_mem c he)
    rw [width, h c List.mem_cons_self, hcs, List.length_cons, Nat.add_comm]

end Measure

/-- The columns of a terminal. -/
def terminal : Measure where
  narrow := charWidth
  wide := wideCharWidth
  narrow_le_wide := charWidth_le_wideCharWidth
  narrow_of_printable _ := charWidth_of_printable

/-- How many columns a text takes up on a terminal. -/
def width (cs : List Char) : Nat := terminal.width cs

theorem width_cons (c : Char) (cs : List Char) : width (c :: cs) = charWidth c + width cs := rfl

theorem width_append (cs ds : List Char) : width (cs ++ ds) = width cs + width ds :=
  terminal.width_append cs ds

theorem width_eq_length {cs : List Char} (h : ∀ c ∈ cs, charWidth c = 1) :
    width cs = cs.length :=
  terminal.width_eq_length h

end Reckoner.Text
