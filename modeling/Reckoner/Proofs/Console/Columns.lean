import Mathlib.Order.Monotone.Defs
import Reckoner.Console.LineEditor
import Reckoner.Desk.View
import Reckoner.Proofs.Text.Positions

/-!
# The column of the cursor

Both editors tell the terminal in which column the cursor is. A line can be wider than any screen,
and the columns of a terminal are counted in 16 bits, so the column *saturates*: it follows the text
before the cursor as far as the last column and stays there (`Saturates`). At the desk the last
column is that of the field, in the line editor the last one there can be. That it does so in the
line editor does not depend on how wide a character is (`LineEditor.saturates_columnBy`).

The definitions of the columns take for granted that there is room for every sum. Here the columns
are computed with the room that there is: a column has 16 bits and a width 64, a sum that wraps
around is noticed and replaced by the last column, and the text before the cursor is cut off at a
place in the bytes of the line. Stopping at each step comes to the same as stopping once at the end
(`Desk.toNat_cursorColumn16`). Widths are added without a look at whether they wrap around; they do
not, because no text is wider than it is long in bytes (`LineEditor.toNat_cursorColumn16?`).
-/

namespace Reckoner

open Text

/-! ### Saturation -/

/-- A column that is to be at `exact n` stays between two others. It is where it is to be exactly if
that is not behind the last of them, and it does not go back when `n` grows. -/
structure Saturates (first last : Nat) (exact column : Nat → Nat) : Prop where
  /-- It is not before the first column. -/
  first_le : ∀ n, first ≤ column n
  /-- It is not behind the last column. -/
  le_last : ∀ n, column n ≤ last
  /-- It is where it is to be exactly as long as that is not behind the last column. -/
  eq_iff : ∀ n, column n = exact n ↔ exact n ≤ last
  /-- It does not go back. -/
  monotone : Monotone column

theorem saturates_min {first last : Nat} {exact : Nat → Nat} (hlast : first ≤ last)
    (hfirst : ∀ n, first ≤ exact n) (hexact : Monotone exact) :
    Saturates first last exact fun n => min (exact n) last where
  first_le n := Nat.le_min.2 ⟨hfirst n, hlast⟩
  le_last _ := Nat.min_le_right _ _
  eq_iff _ := ⟨fun h => h ▸ Nat.min_le_right _ _, Nat.min_eq_left⟩
  monotone _ _ h := Nat.le_min.2 ⟨(Nat.min_le_left _ _).trans (hexact h), Nat.min_le_right _ _⟩

/-! ### Columns in 16 bits -/

namespace Column

/-- The column with a number, or the last column if there is none with it. -/
def ofCount (n : UInt64) : UInt16 := if n ≤ 0xFFFF then n.toUInt16 else 0xFFFF

/-- The sum of two columns, or the last column if the sum wraps around. -/
def add (x y : UInt16) : UInt16 := if x + y < x then 0xFFFF else x + y

/-- The difference of two columns, or the first column if the difference wraps around. -/
def sub (x y : UInt16) : UInt16 := if x < x - y then 0 else x - y

theorem toNat_ofCount (n : UInt64) : (ofCount n).toNat = min n.toNat 0xFFFF := by
  have hle : n ≤ 0xFFFF ↔ n.toNat ≤ 0xFFFF := UInt64.le_iff_toNat_le
  rw [ofCount]
  split_ifs with h <;> rw [hle] at h
  · rw [UInt64.toNat_toUInt16]
    omega
  · exact (Nat.min_eq_right (Nat.le_of_not_le h)).symm

theorem toNat_add (x y : UInt16) : (add x y).toNat = min (x.toNat + y.toNat) 0xFFFF := by
  have hx := x.toNat_lt
  have hy := y.toNat_lt
  -- a sum that wraps around is less than each of the columns
  have hlt : x + y < x ↔ (x.toNat + y.toNat) % 2 ^ 16 < x.toNat := by
    rw [UInt16.lt_iff_toNat_lt, UInt16.toNat_add]
  rw [add]
  split_ifs with h <;> rw [hlt] at h
  · show 0xFFFF = _
    omega
  · rw [UInt16.toNat_add]
    omega

theorem toNat_sub (x y : UInt16) : (sub x y).toNat = x.toNat - y.toNat := by
  have hx := x.toNat_lt
  have hy := y.toNat_lt
  -- a difference that wraps around is greater than the column that is taken from
  have hlt : x < x - y ↔ x.toNat < (2 ^ 16 - y.toNat + x.toNat) % 2 ^ 16 := by
    rw [UInt16.lt_iff_toNat_lt, UInt16.toNat_sub]
  rw [sub]
  split_ifs with h <;> rw [hlt] at h
  · show 0 = _
    omega
  · rw [UInt16.toNat_sub]
    omega

end Column

/-! ### At the desk -/

namespace Desk

/-- The column of the cursor at the desk, in 16 bits. -/
def cursorColumn16 (x width : UInt16) (before : UInt64) : UInt16 :=
  let last := max (Column.sub (Column.add x width) 1) x
  min (Column.add (Column.add x 2) (Column.ofCount before)) last

theorem toNat_cursorColumn16 (x width : UInt16) (before : UInt64) :
    (cursorColumn16 x width before).toNat =
      cursorColumn x.toNat width.toNat before.toNat := by
  have hx := x.toNat_lt
  have hlast : (max (Column.sub (Column.add x width) 1) x).toNat =
      max (min (x.toNat + width.toNat) 0xFFFF - 1) x.toNat := by
    rw [UInt16.toNat_max, Column.toNat_sub, Column.toNat_add]
    rfl
  have hexact : (Column.add (Column.add x 2) (Column.ofCount before)).toNat =
      min (x.toNat + 2 + before.toNat) 0xFFFF := by
    rw [Column.toNat_add, Column.toNat_add, Column.toNat_ofCount]
    show min (min (x.toNat + 2) 0xFFFF + min before.toNat 0xFFFF) 0xFFFF = _
    omega
  -- the last column of the field is not behind the last one there can be
  rw [cursorColumn16, UInt16.toNat_min, hexact, hlast, cursorColumn, columnLimit]
  omega

theorem saturates_cursorColumn (x width : Nat) :
    Saturates x (max x (min (x + width) 0xFFFF - 1)) (fun before => x + 2 + before)
      (cursorColumn x width) := by
  have hcolumn : cursorColumn x width =
      fun before => min (x + 2 + before) (max x (min (x + width) 0xFFFF - 1)) := by
    funext before
    rw [cursorColumn, Nat.max_comm]
    rfl
  rw [hcolumn]
  refine saturates_min (Nat.le_max_left _ _) (fun before => ?_) fun _ _ h => ?_
  · exact (Nat.le_add_right x 2).trans (Nat.le_add_right _ before)
  · exact Nat.add_le_add_left h _

end Desk

/-! ### The text before the cursor -/

namespace Text

namespace Utf8

/-- Where the characters of a text begin that itself begins at `b`, told in bytes. -/
def places : Nat → List Char → List Nat
  | _, [] => []
  | b, c :: cs => b :: places (b + c.utf8Size) cs

/-- Where the character with an index begins; beyond the end there is only the end. -/
def place (cs : List Char) (n : Nat) : Nat := (places 0 cs)[n]?.getD (encode cs).length

theorem getElem?_places (b : Nat) (cs : List Char) (n : Nat) :
    (places b cs)[n]? = if n < cs.length then some (b + offset cs n) else none := by
  induction cs generalizing b n with
  | nil => rfl
  | cons c cs ih =>
    cases n with
    | zero => rfl
    | succ n =>
      rw [places, List.getElem?_cons_succ, ih, offset_cons_succ, List.length_cons, Nat.add_assoc]
      simp only [Nat.add_lt_add_iff_right]

theorem place_eq_offset (cs : List Char) (n : Nat) : place cs n = offset cs n := by
  rw [place, getElem?_places]
  split_ifs with h
  · rw [Option.getD_some, Nat.zero_add]
  · rw [Option.getD_none, offset, List.take_of_length_le (Nat.le_of_not_lt h)]

end Utf8

/-- How many columns a text takes up, in 64 bits. -/
def width64 : List Char → UInt64
  | [] => 0
  | c :: cs => UInt64.ofNat (charWidth c) + width64 cs

theorem toNat_width64 (cs : List Char) : (width64 cs).toNat = width cs % UInt64.size := by
  induction cs with
  | nil => rfl
  | cons c cs ih =>
    rw [width64, width_cons, UInt64.toNat_add, ih, UInt64.toNat_ofNat']
    exact (Nat.add_mod _ _ _).symm

/-- A character that is not among the first 0x800 is written with three bytes or four. -/
theorem three_le_utf8Size {c : Char} (h : 0x800 ≤ c.toNat) : 3 ≤ c.utf8Size := by
  have hone : c.utf8Size = 1 → c.toNat ≤ 0x7F := fun h1 => Char.utf8Size_eq_one_iff.1 h1
  have htwo : c.utf8Size = 2 → c.toNat ≤ 0x7FF := fun h2 => (Char.utf8Size_eq_two_iff.1 h2).2
  have hsize := c.utf8Size_eq
  omega

/-- No character takes up more columns than bytes: what is wider than a column is far from the
beginning of the table. -/
theorem charWidth_le_utf8Size (c : Char) : charWidth c ≤ c.utf8Size := by
  have hpos := c.utf8Size_pos
  have hwide : ∀ r ∈ doubleWidth, 0x800 ≤ r.1 := by decide +kernel
  rw [charWidth]
  split_ifs with _ _ hsign hdouble
  · exact hpos
  · exact Nat.zero_le _
  · exact three_le_utf8Size (hsign ▸ by decide)
  · obtain ⟨r, hr, hlow, -⟩ := Ranges.contains_iff.1 hdouble
    exact Nat.le_of_succ_le (three_le_utf8Size ((hwide r hr).trans hlow))
  · exact hpos

/-- No text takes up more columns than bytes. -/
theorem width_le_length_encode (cs : List Char) : width cs ≤ (Utf8.encode cs).length := by
  induction cs with
  | nil => exact Nat.le_refl 0
  | cons c cs ih =>
    rw [width_cons, Utf8.length_encode_cons]
    exact Nat.add_le_add (charWidth_le_utf8Size c) ih

/-- More of a text takes up no fewer columns. -/
theorem Measure.monotone_width_take (m : Measure) (cs : List Char) :
    Monotone fun n => m.width (cs.take n) := by
  intro k n h
  obtain ⟨more, hmore⟩ : cs.take k <+: cs.take n := List.take_prefix_take_left h
  show m.width (cs.take k) ≤ m.width (cs.take n)
  rw [← hmore, m.width_append]
  exact Nat.le_add_right _ _

/-- A text in memory takes up fewer bytes than this: of the 64 bits of a size, one is kept free. -/
def memoryLimit : Nat := 0x8000000000000000

end Text

/-! ### In the line editor -/

namespace LineEditor

theorem width_marker (m : Measure) : m.width marker = 2 := by
  have hsign : m.narrow '>' = 1 := m.narrow_of_printable '>' (by decide) (by decide)
  have hspace : m.narrow ' ' = 1 := m.narrow_of_printable ' ' (by decide) (by decide)
  show m.narrow '>' + (m.narrow ' ' + 0) = 2
  rw [hsign, hspace]

/-- The column of the cursor in the line editor, in 16 bits. The text before the cursor is measured
up to a place in the bytes of the line. -/
def cursorColumn16? (line : List Char) (cursor : Nat) : Option UInt16 :=
  (Utf8.sliceTo? line (Utf8.place line cursor)).map fun before =>
    Column.ofCount (1 + width64 marker + width64 before)

/-- No width wraps around in a line that fits into memory. -/
theorem toNat_cursorColumn16? {line : List Char} (h : (Utf8.encode line).length < memoryLimit)
    (cursor : Nat) :
    (cursorColumn16? line cursor).map UInt16.toNat = some (cursorColumn line cursor) := by
  have hbefore : width (line.take cursor) < memoryLimit := by
    have hline := width_append (line.take cursor) (line.drop cursor)
    rw [List.take_append_drop] at hline
    have hbytes := width_le_length_encode line
    omega
  have hcount : (1 + width64 marker + width64 (line.take cursor)).toNat =
      1 + width marker + width (line.take cursor) := by
    have hmarker : width marker = 2 := width_marker terminal
    rw [memoryLimit] at hbefore
    rw [UInt64.toNat_add, UInt64.toNat_add, toNat_width64, toNat_width64, hmarker]
    show ((1 + 2 % 2 ^ 64) % 2 ^ 64 + width (line.take cursor) % 2 ^ 64) % 2 ^ 64 = _
    omega
  rw [cursorColumn16?, Utf8.place_eq_offset, Utf8.sliceTo?_offset, Option.map_some,
    Option.map_some, Column.toNat_ofCount, hcount]
  rfl

theorem saturates_columnBy (m : Measure) (line : List Char) :
    Saturates 3 0xFFFF (fun cursor => 3 + m.width (line.take cursor)) (columnBy m line) := by
  have hcolumn : columnBy m line = fun cursor => min (3 + m.width (line.take cursor)) 0xFFFF := by
    funext cursor
    rw [columnBy, width_marker]
    rfl
  rw [hcolumn]
  refine saturates_min (by decide) (fun cursor => Nat.le_add_right 3 _) fun _ _ h => ?_
  exact Nat.add_le_add_left (m.monotone_width_take line h) 3

end LineEditor

/-! ### Both editors -/

/-- **The column of the cursor saturates.** At the desk it follows the marker and the text before
the cursor up to the last column of the field, which is the first if the field is empty, and never
leaves the field to either side. In the line editor it follows them up to the last column there can
be, also if the cursor is beyond the line. Computed in 16 bits from widths of 64 bits, the columns
are the same: at the desk for every field and every width, in the line editor for every line that
fits into memory. How the columns of a character are counted matters only to this last part. -/
theorem cursorColumn_saturates :
    (∀ x width : UInt16,
      Saturates x.toNat (max x.toNat (min (x.toNat + width.toNat) 0xFFFF - 1))
        (fun before => x.toNat + 2 + before) (Desk.cursorColumn x.toNat width.toNat) ∧
      ∀ before : UInt64, (Desk.cursorColumn16 x width before).toNat =
        Desk.cursorColumn x.toNat width.toNat before.toNat) ∧
    (∀ (m : Measure) (line : List Char),
      Saturates 3 0xFFFF (fun cursor => 3 + m.width (line.take cursor))
        (LineEditor.columnBy m line)) ∧
    ∀ line : List Char,
      Saturates 3 0xFFFF (fun cursor => 3 + width (line.take cursor))
        (LineEditor.cursorColumn line) ∧
      ((Utf8.encode line).length < memoryLimit → ∀ cursor,
        (LineEditor.cursorColumn16? line cursor).map UInt16.toNat =
          some (LineEditor.cursorColumn line cursor)) :=
  ⟨fun x width => ⟨Desk.saturates_cursorColumn x.toNat width.toNat,
      Desk.toNat_cursorColumn16 x width⟩,
    LineEditor.saturates_columnBy,
    fun line => ⟨LineEditor.saturates_columnBy terminal line, LineEditor.toNat_cursorColumn16?⟩⟩

/-- A field that would end behind the last column there can be, and a text before the cursor whose
width has 64 bits; a field of no columns; and wide characters in a line, with the cursor among them
and beyond the line. -/
theorem cursorColumn_saturates_at_edges :
    let line := "1漢字".toList
    (Desk.cursorColumn16 65530 10 0xFFFFFFFFFFFFFFFF).toNat = 65534 ∧
      (Desk.cursorColumn16 7 0 1).toNat = 7 ∧
      ((Utf8.encode line).length < memoryLimit ∧
        (LineEditor.cursorColumn16? line 2).map UInt16.toNat = some 6) ∧
      LineEditor.cursorColumn line 9 = 8 := by
  intro line
  obtain ⟨hdesk, -, hline⟩ := cursorColumn_saturates
  have hwidth : width (line.take 9) = 5 := by decide +kernel
  have hmemory : (Utf8.encode line).length < memoryLimit := by decide +kernel
  have hcolumn : LineEditor.cursorColumn line 2 = 6 := by decide +kernel
  refine ⟨(hdesk 65530 10).2 0xFFFFFFFFFFFFFFFF, (hdesk 7 0).2 1, ⟨hmemory, ?_⟩, ?_⟩
  · exact hcolumn ▸ (hline line).2 hmemory 2
  · have hexact := ((hline line).1.eq_iff 9).2 (by rw [hwidth]; decide)
    rw [hexact, hwidth]

end Reckoner
