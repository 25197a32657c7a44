import Reckoner.Desk.Transcript
import Reckoner.Proofs.Desk.Actions
import Reckoner.Proofs.Expression.Highlight
import Reckoner.Proofs.Number.Bounds
import Reckoner.Proofs.Number.Notation
import Reckoner.Proofs.Text.Wrap

/-!
# How wide the rows of the transcript are

The text of an entry is wrapped `listMargin` columns before the end of the list, and what is put in
front of the lines and behind the first one comes on top. The line of the entry has two columns in
front, so it fits with room to spare. But what it came to stands behind its first row and is not
wrapped, and the notes below it are indented by six columns, two more than have been kept free.
These are the only ways in which a row can be wider than the list (`rows_fit_iff`); the time that a
detailed evaluation took always fits.
-/

namespace Reckoner

open Expression Screen Text

variable {limit bound elapsed W : Nat} {selected : Bool}

namespace Desk

/-! ### Widths -/

/-- How many columns a row takes up. -/
def rowWidth (row : Row) : Nat := width (plainText row)

@[simp]
theorem rowWidth_nil : rowWidth [] = 0 := rfl

@[simp]
theorem rowWidth_cons (s : Span) (row : Row) : rowWidth (s :: row) = width s.text + rowWidth row :=
  width_append s.text (plainText row)

theorem rowWidth_append (row row' : Row) :
    rowWidth (row ++ row') = rowWidth row + rowWidth row' := by
  rw [rowWidth, plainText, List.flatMap_append, width_append]
  rfl

theorem forall_rowWidth_le_iff {rows : List Row} :
    (∀ row ∈ rows, rowWidth row ≤ bound) ↔ ∀ w ∈ rows.map rowWidth, w ≤ bound := by
  rw [List.forall_mem_map]

/-- Indented lines are six columns wider. -/
theorem map_rowWidth_indented (style : Style) (ls : List (List Char)) :
    (indented style ls).map rowWidth = ls.map (6 + width ·) := by
  have hrow (front : List Char) (hfront : width front = 6) (line : List Char) :
      rowWidth [⟨front ++ line, style⟩] = 6 + width line := by
    rw [rowWidth_cons, width_append, hfront, rowWidth_nil, Nat.add_zero]
  cases ls with
  | nil => rfl
  | cons line rest =>
    rw [indented, List.map_cons, hrow _ (by decide), List.map_map, List.map_cons]
    congr 1
    exact List.map_congr_left fun line _ => hrow _ (by decide) line

/-- Colouring a line does not change its width. -/
theorem rowWidth_lineSpans (isPath : Bool) (style : Style) (cs : List Char) :
    rowWidth (lineSpans isPath style cs) = width cs := by
  cases isPath with
  | true => exact (rowWidth_cons ⟨cs, style⟩ []).trans (Nat.add_zero _)
  | false => exact congrArg width (plainText_highlight style cs)

end Desk

/-! ### The line -/

namespace Entry

open Desk

/-- How many columns what the line came to takes up. -/
def outcomeWidth (e : Entry) : Nat := rowWidth (outcomeSpans e.replies.head?)

variable {e : Entry}

theorem rowWidth_front (front : Span) (hfront : width front.text = 2) (isPath : Bool)
    (style : Style) (cs : List Char) :
    rowWidth (front :: lineSpans isPath style cs) = 2 + width cs := by
  rw [rowWidth_cons, hfront, rowWidth_lineSpans]

/-- The rows of the line are two columns wider than the lines of its text, and the outcome is added
to the first one. -/
theorem map_rowWidth_lineRows (e : Entry) (selected : Bool) (limit : Nat) :
    (e.lineRows selected limit).map rowWidth = match wrap limit e.shownLine with
      | [] => []
      | first :: rest => (2 + width first + e.outcomeWidth) :: rest.map (2 + width ·) := by
  rw [lineRows]
  cases wrap limit e.shownLine with
  | nil => rfl
  | cons first rest =>
    simp only [List.map_cons, List.map_map, rowWidth_append]
    rw [rowWidth_front _ (by decide)]
    congr 1
    exact List.map_congr_left fun cs _ => rowWidth_front _ (by decide) _ _ cs

theorem lineRows_le_iff : (∀ row ∈ e.lineRows selected limit, rowWidth row ≤ bound) ↔
    (∀ first ∈ (wrap limit e.shownLine).head?, 2 + width first + e.outcomeWidth ≤ bound) ∧
      ∀ line ∈ (wrap limit e.shownLine).tail, 2 + width line ≤ bound := by
  rw [forall_rowWidth_le_iff, map_rowWidth_lineRows]
  cases wrap limit e.shownLine with
  | nil => simp
  | cons first rest =>
    rw [List.forall_mem_cons, List.forall_mem_map, List.head?_cons, List.tail_cons]
    simp

end Entry

/-! ### The notes -/

/-- The texts that are wrapped below the line for a reply. -/
def Reply.notes : Reply → List (List Char)
  | value _ _ steps => (steps.zipIdx 1).map fun (c, number) => (Desk.stepText number c).toList
  | failed _ _ => []
  | saveFailed p e => [(saveFailed p e).text.toList]
  | reply => lines reply.text.toList

/-- Whether the time that the answer took is told. -/
def Reply.isTimed : Reply → Bool
  | value _ _ (_ :: _) => true
  | _ => false

namespace Desk

/-- Below the line stand the notes and the time. -/
theorem exists_replyRows_eq (elapsed limit : Nat) (r : Reply) :
    ∃ style, replyRows elapsed limit r =
      (r.notes.flatMap fun note => indented style (wrap limit note)) ++
        if r.isTimed then indented Colour.magenta.style [(timeText elapsed).toList] else [] := by
  cases r with
  | value x v steps =>
    cases steps with
    | nil => exact ⟨Style.plain, rfl⟩
    | cons c steps => exact ⟨Colour.darkGray.style, by rw [Reply.notes, List.flatMap_map]; rfl⟩
  | failed => exact ⟨Style.plain, rfl⟩
  | saveFailed p e =>
    refine ⟨Colour.red.style, ?_⟩
    rw [Reply.notes, List.flatMap_singleton]
    exact (List.append_nil _).symm
  | history | saved | pathChanged | goodbye => exact ⟨Colour.gray.style, (List.append_nil _).symm⟩

theorem map_rowWidth_replyRows (elapsed limit : Nat) (r : Reply) :
    (replyRows elapsed limit r).map rowWidth =
      (r.notes.flatMap fun note => (wrap limit note).map (6 + width ·)) ++
        if r.isTimed then [6 + width (timeText elapsed).toList] else [] := by
  obtain ⟨style, hrows⟩ := exists_replyRows_eq elapsed limit r
  rw [hrows, List.map_append, List.map_flatMap]
  simp only [map_rowWidth_indented]
  cases r.isTimed with
  | true => rw [if_pos rfl, if_pos rfl, map_rowWidth_indented]; rfl
  | false => rfl

/-! ### The time -/

/-- How long an answer can take, in nanoseconds: seconds are counted in 64 bits. -/
def elapsedLimit : Nat := 2 ^ 64 * 1000000000

theorem atMost_milliseconds (h : elapsed < elapsedLimit) :
    Number.AtMost 75 (milliseconds elapsed) := by
  have hbillion : ∃ r, Number.ofNat 1000000000 = .finite false r ∧
      Number.unitsPerOne ≤ Number.units r :=
    ⟨⟨0x41CDCD6500000000, by decide⟩, by decide +kernel, by decide +kernel⟩
  obtain ⟨r, hr, hone⟩ := hbillion
  have hseconds : elapsed / 1000000000 ≤ 2 ^ 64 := by
    rw [elapsedLimit] at h
    omega
  have hrest : elapsed % 1000000000 ≤ 2 ^ 64 := by omega
  have hfraction : Number.AtMost 64
      (Number.div (.ofNat (elapsed % 1000000000)) (.ofNat 1000000000)) := by
    rw [hr]
    exact (Number.atMost_ofNat (by decide) hrest).div (by decide) hone
  have hsum := (Number.atMost_ofNat (by decide) hseconds).add hfraction (by decide)
  have hthousand : Number.AtMost 10 (.ofNat 1000) := Number.atMost_ofNat (by decide) (by decide)
  have hproduct := hsum.mul hthousand (by decide)
  simp only [milliseconds]
  exact hproduct

theorem charWidth_of_isTextChar {c : Char} (h : Number.isTextChar c = true) : charWidth c = 1 := by
  have hrange : 0x20 ≤ c.toNat ∧ c.toNat < 0x7F := by
    rw [Number.isTextChar, Bool.or_eq_true, List.contains_iff_mem] at h
    rcases h with hdigit | hmem
    · have hdigit' := Number.toNat_of_isDigit hdigit
      omega
    · have hall : "-.InfinityNaN".toList.all (fun d => 0x20 ≤ d.toNat && d.toNat < 0x7F) := by
        decide
      simpa using List.all_eq_true.1 hall c hmem
  exact charWidth_of_printable hrange.1 hrange.2

/-- The time always fits. -/
theorem width_timeText_le (h : elapsed < elapsedLimit) : width (timeText elapsed).toList ≤ 42 := by
  have hdigits : (Number.fixedText 6 (milliseconds elapsed)).toList.length ≤ 29 + 1 :=
    (atMost_milliseconds h).length_fixedText_le (by decide) (by decide)
  have hwidth : width (Number.fixedText 6 (milliseconds elapsed)).toList =
      (Number.fixedText 6 (milliseconds elapsed)).toList.length := by
    refine width_eq_length fun c hc => charWidth_of_isTextChar ?_
    rw [Number.fixedText, String.toList_ofList] at hc
    exact Number.isTextChar_of_mem_charsWith (fun _ _ => Number.Decimal.isTextChar_of_mem_chars) hc
  have hfront : width "Time: ".toList = 6 := by decide
  have hback : width " ms".toList = 3 := by decide
  rw [timeText, String.toList_append, String.toList_append, width_append, width_append, hfront,
    hback, hwidth]
  omega

theorem replyRows_le_iff (h : elapsed < elapsedLimit) (hbound : 48 ≤ bound) {r : Reply} :
    (∀ row ∈ replyRows elapsed limit r, rowWidth row ≤ bound) ↔
      ∀ note ∈ r.notes, ∀ line ∈ wrap limit note, 6 + width line ≤ bound := by
  have htime : ∀ w ∈ (if r.isTimed then [6 + width (timeText elapsed).toList] else []),
      w ≤ bound := by
    have hfits := width_timeText_le h
    cases r.isTimed with
    | true =>
      intro w hw
      rw [if_pos rfl, List.mem_singleton] at hw
      omega
    | false => exact List.forall_mem_nil _
  rw [forall_rowWidth_le_iff, map_rowWidth_replyRows, List.forall_mem_append, and_iff_left htime,
    List.forall_mem_flatMap]
  refine forall₂_congr fun note _ => ?_
  rw [List.forall_mem_map]

end Desk

/-! ### Every row -/

namespace Entry

open Desk

variable {e : Entry}

/-- **Which rows are too wide.** In a list at least 48 columns wide the rows of an entry fit exactly
if its outcome has room behind the first row of its line and each line of its notes leaves room for
the indentation. The line is too wide by no more than its outcome, and a note by two columns at
most. -/
theorem rows_fit_iff (hW : 48 ≤ W) (h : e.elapsed < elapsedLimit) (selected : Bool) :
    ((∀ row ∈ e.rows selected (W - listMargin), rowWidth row ≤ W) ↔
      (∀ first ∈ (wrap (W - listMargin) e.shownLine).head?,
        2 + width first + e.outcomeWidth ≤ W) ∧
      ∀ r ∈ e.replies, ∀ note ∈ r.notes, ∀ line ∈ wrap (W - listMargin) note,
        6 + width line ≤ W) ∧
    (∀ row ∈ e.lineRows selected (W - listMargin), rowWidth row ≤ W + e.outcomeWidth) ∧
    ∀ r ∈ e.replies, ∀ row ∈ replyRows e.elapsed (W - listMargin) r, rowWidth row ≤ W + 2 := by
  have hmargin : listMargin = 4 := rfl
  have hwrapped {cs line : List Char} (hline : line ∈ wrap (W - listMargin) cs) :
      width line + listMargin ≤ W := by
    have hnarrow (c : Char) : charWidth c ≤ W - listMargin := (charWidth_le c).trans (by omega)
    have hfits : width line ≤ W - listMargin := width_le_of_mem_wrap (by omega) hnarrow hline
    omega
  have hrest : ∀ line ∈ (wrap (W - listMargin) e.shownLine).tail, 2 + width line ≤ W := by
    intro line hline
    have hfits := hwrapped (List.mem_of_mem_tail hline)
    omega
  refine ⟨?_, ?_, fun r _ => ?_⟩
  · rw [rows, List.forall_mem_append, List.forall_mem_flatMap, lineRows_le_iff, and_iff_left hrest]
    exact and_congr_right fun _ => forall₂_congr fun r _ => replyRows_le_iff h hW
  · refine lineRows_le_iff.2 ⟨fun first hfirst => ?_, fun line hline => ?_⟩
    · have hfits := hwrapped (List.mem_of_mem_head? hfirst)
      omega
    · exact (hrest line hline).trans (Nat.le_add_right W _)
  · refine (replyRows_le_iff h (Nat.le_add_right_of_le hW)).2 fun note _ line hline => ?_
    have hfits := hwrapped hline
    omega

/-- The name of the file is as long as it can be for the note to fit. -/
theorem rows_fit_iff_full_note :
    let e : Entry := ⟨['s'], [.saved ⟨"calculator_history_2.log"⟩], 1500000, false⟩
    (48 ≤ 48 ∧ e.elapsed < elapsedLimit) ∧ (e.rows true (48 - listMargin)).map rowWidth = [3, 48] ∧
      ∀ row ∈ e.rows true (48 - listMargin), rowWidth row ≤ 48 := by
  intro e
  have helapsed : e.elapsed < elapsedLimit := by decide
  have houtcome : ∀ first ∈ (wrap (48 - listMargin) e.shownLine).head?,
      2 + width first + e.outcomeWidth ≤ 48 := by decide +kernel
  have hnotes : ∀ r ∈ e.replies, ∀ note ∈ r.notes, ∀ line ∈ wrap (48 - listMargin) note,
      6 + width line ≤ 48 := by decide +kernel
  obtain ⟨hfit, -⟩ := rows_fit_iff (Nat.le_refl 48) helapsed true
  exact ⟨⟨Nat.le_refl 48, helapsed⟩, by decide +kernel, hfit.2 ⟨houtcome, hnotes⟩⟩

/-- A note about a longer name is too wide, and so is what a refused line came to. -/
theorem not_rows_fit :
    let s := Session.new ⟨[], ⟨"calculator_history_two.log"⟩⟩ ⟨"/"⟩
    ∀ line ∈ ["s".toList, "1+".toList],
      let keys := line.map Key.char ++ [.enter]
      let d := (Desk.new s (.empty [])).acts (keys.map (.press · {} 0))
      ∃ e ∈ d.transcript, ∃ row ∈ e.rows true (48 - listMargin), 48 < rowWidth row := by
  decide +kernel

end Entry

end Reckoner
