import Reckoner.Proofs.Desk.Actions

/-!
# The window over the line

A line that is longer than its field is seen through a window of so many characters. Scrolling the
line puts the window where it is `Scrolled`: the cursor is not before it, it does not reach further
behind the line than it has to, and the cursor is in it, unless it is at the end of the line. A
window that is there already stays (`Scrolled.adjustScroll_eq`).

The end of the line is the exception that matters. A cursor behind the last character wants a cell
of its own, but a line that fills the window leaves none. So such a cursor is at the end of the
window and not in it, and it is drawn over the last character in view (`cursor_in_window`).
-/

namespace Reckoner.Desk

open Files Screen Text

variable {d : Desk} {visible : Nat}

/-! ### Where the window is -/

/-- The window of `visible` characters is where scrolling the line puts it. -/
structure Scrolled (d : Desk) (visible : Nat) : Prop where
  /-- The cursor is not before the window. -/
  le_cursor : d.inputScroll ≤ d.cursor
  /-- No more of the line is out of view than has to be. -/
  le_end : d.inputScroll ≤ d.input.length - visible
  /-- The cursor is in the window, unless the window is at the end of the line. -/
  cursor_lt_or : d.cursor < d.inputScroll + visible ∨ d.inputScroll = d.input.length - visible

theorem scrolled_adjustScroll (h : 1 ≤ visible) (d : Desk) :
    (d.adjustScroll visible).Scrolled visible := by
  refine ⟨?_, Nat.min_le_right _ _, ?_⟩ <;> simp only [adjustScroll] <;> split_ifs <;> omega

/-- A window that is where it has to be stays there. -/
theorem Scrolled.adjustScroll_eq (h : d.Scrolled visible) : d.adjustScroll visible = d := by
  obtain ⟨hcursor, hend, hwindow⟩ := h
  have hscroll : (d.adjustScroll visible).inputScroll = d.inputScroll := by
    simp only [adjustScroll]
    split_ifs <;> omega
  calc d.adjustScroll visible
      = { d with inputScroll := (d.adjustScroll visible).inputScroll } := rfl
    _ = d := by rw [hscroll]

/-- The cursor is at most at the end of the window, and it is in the window unless it stands behind
a line that fills the window. -/
theorem Scrolled.cursor_lt_iff (h : d.Scrolled visible) (hcursor : d.cursor ≤ d.input.length) :
    d.cursor ≤ d.inputScroll + visible ∧
      (d.cursor < d.inputScroll + visible ↔
        d.cursor < d.input.length ∨ d.input.length < visible) := by
  -- a window that is at the end of the line ends where the line does
  obtain ⟨hle, hend, hwindow⟩ := h
  omega

/-! ### Drawing the main view -/

variable {size : Size}

theorem Size.isTooSmall_eq_false_iff :
    size.isTooSmall = false ↔ 50 ≤ size.width ∧ 10 ≤ size.height := by
  rw [isTooSmall, Bool.or_eq_false_iff, decide_eq_false_iff_not, decide_eq_false_iff_not,
    Nat.not_lt, Nat.not_lt]
  rfl

theorem Size.one_le_visibleInput (h : size.isTooSmall = false) : 1 ≤ size.visibleInput := by
  have hwidth : 50 ≤ size.width := (isTooSmall_eq_false_iff.1 h).1
  show 1 ≤ size.width - 2 - 2
  omega

/-- Placing the transcript keeps all else. -/
theorem exists_placeTranscript_eq (d : Desk) (list : Area) :
    ∃ starts offset bottom, d.placeTranscript list =
      { d with starts := starts, historyScroll := offset, toBottom := bottom } := by
  by_cases hempty : d.transcript = []
  · rw [placeTranscript, if_pos hempty]
    exact ⟨d.starts, d.historyScroll, d.toBottom, rfl⟩
  · rw [placeTranscript, if_neg hempty]
    exact ⟨_, _, _, rfl⟩

/-- The desk after drawing the main view on a screen that is not too small. -/
theorem prepareMain_eq (hsize : size.isTooSmall = false) : d.prepareMain size =
    { (({ d with tooSmall := false } : Desk).adjustScroll size.visibleInput).placeTranscript
        size.transcriptArea.inner with listHeight := size.transcriptArea.height } := by
  rw [prepareMain, hsize, if_neg Bool.false_ne_true]

/-- On such a screen the line is scrolled, and all else that changes is about the transcript. -/
theorem exists_prepareMain_drawn (d : Desk) (hsize : size.isTooSmall = false) :
    ∃ starts offset bottom, d.prepareMain size =
      { d.adjustScroll size.visibleInput with
        tooSmall := false, starts := starts, historyScroll := offset, toBottom := bottom,
        listHeight := size.transcriptArea.height } := by
  obtain ⟨starts, offset, bottom, hplace⟩ := exists_placeTranscript_eq
    (({ d with tooSmall := false } : Desk).adjustScroll size.visibleInput) size.transcriptArea.inner
  rw [prepareMain_eq hsize, hplace]
  exact ⟨starts, offset, bottom, rfl⟩

/-- Drawing the main view changes nothing but how the line and the transcript are shown. -/
theorem exists_prepareMain_eq (d : Desk) (size : Size) :
    ∃ scroll height starts offset bottom small, d.prepareMain size =
      { d with
        inputScroll := scroll, listHeight := height, starts := starts, historyScroll := offset,
        toBottom := bottom, tooSmall := small } := by
  cases hsize : size.isTooSmall with
  | true =>
    rw [prepareMain, if_pos hsize]
    exact ⟨_, _, _, _, _, _, rfl⟩
  | false =>
    obtain ⟨starts, offset, bottom, hmain⟩ := exists_prepareMain_drawn d hsize
    exact ⟨_, _, _, _, _, _, hmain⟩

theorem helpShown_prepareMain (d : Desk) (size : Size) :
    (d.prepareMain size).helpShown = d.helpShown := by
  obtain ⟨_, _, _, _, _, _, hmain⟩ := exists_prepareMain_eq d size
  rw [hmain]

theorem prepare_eq (hhelp : d.helpShown = false) : d.prepare size = d.prepareMain size := by
  rw [prepare, hhelp, if_neg Bool.false_ne_true]

/-- Drawing the main view scrolls the line. -/
theorem scrolled_prepareMain (hsize : size.isTooSmall = false) :
    (d.prepareMain size).Scrolled size.visibleInput := by
  have hscrolled := scrolled_adjustScroll (Size.one_le_visibleInput hsize) d
  obtain ⟨starts, offset, bottom, hmain⟩ := exists_prepareMain_drawn d hsize
  rw [hmain]
  exact ⟨hscrolled.le_cursor, hscrolled.le_end, hscrolled.cursor_lt_or⟩

/-! ### The cell of the cursor -/

/-- What of the line is in view before the cursor. -/
def shownBefore (d : Desk) (visible : Nat) : List Char :=
  (d.visibleLine visible).take (d.cursor - d.inputScroll)

theorem mem_of_mem_shownBefore {c : Char} (h : c ∈ d.shownBefore visible) : c ∈ d.input :=
  List.mem_of_mem_drop (List.mem_of_mem_take (List.mem_of_mem_take h))

/-- The cursor is drawn behind what is in view before it, or in the last column of the field if that
is too wide. -/
theorem cursor_picture (hhelp : d.helpShown = false) (hsize : size.isTooSmall = false)
    (hwidth : size.width ≤ columnLimit) : (d.picture size).cursor =
      some (3 + min (width (d.shownBefore size.visibleInput)) (size.visibleInput - 1), 1) := by
  have hmain := Size.isTooSmall_eq_false_iff.1 hsize
  have hcolumn (before : Nat) : cursorColumn 1 (size.width - 2) before =
      3 + min before (size.visibleInput - 1) := by
    simp only [cursorColumn, columnLimit, Size.visibleInput, Size.inputArea, Area.inner] at hwidth ⊢
    omega
  rw [picture, hhelp, if_neg Bool.false_ne_true, hsize, if_neg Bool.false_ne_true, ← hcolumn]
  rfl

/-- What is in view before a cursor that is not beyond the window. -/
theorem length_shownBefore (hcursor : d.cursor ≤ d.input.length)
    (hwindow : d.cursor ≤ d.inputScroll + visible) :
    (d.shownBefore visible).length = d.cursor - d.inputScroll := by
  rw [shownBefore, visibleLine, List.length_take, List.length_take, List.length_drop]
  omega

/-- **The cursor and the window.** After the line has been scrolled, the cursor is not before the
window and at most at its end; it is in the window unless it stands behind a line that is as long as
the window or longer. On a screen it is drawn in the cell behind what is in view before it, as long
as that is narrower than the window, and in the last cell of the field otherwise; in a line whose
characters take up one column each it has a cell of its own exactly if it is in the window. -/
theorem cursor_in_window {s : Session} (hs : s.isFinished = false) (t : Tree)
    (actions : List Action) :
    let d := (Desk.new s t).acts actions
    (∀ visible, 1 ≤ visible →
      let d' := d.adjustScroll visible
      d'.inputScroll ≤ d'.cursor ∧ d'.cursor ≤ d'.inputScroll + visible ∧
      (d'.cursor < d'.inputScroll + visible ↔
        d'.cursor < d'.input.length ∨ d'.input.length < visible)) ∧
    ∀ size, d.helpShown = false → size.isTooSmall = false → size.width ≤ columnLimit →
      let d' := (d.draw size).1
      let before := d'.shownBefore size.visibleInput
      (d.draw size).2.cursor = some (3 + min (width before) (size.visibleInput - 1), 1) ∧
      ((∀ c ∈ d'.input, charWidth c = 1) → (width before < size.visibleInput ↔
        d'.cursor < d'.inputScroll + size.visibleInput)) := by
  intro d
  have hsound : d.Sound := (Sound.new hs t).acts actions
  refine ⟨fun visible hvisible => ?_, fun size hhelp hsize hwidth => ?_⟩
  · have hscrolled := scrolled_adjustScroll hvisible d
    exact ⟨hscrolled.le_cursor, hscrolled.cursor_lt_iff hsound.cursor⟩
  · intro d' before
    have hd' : d' = d.prepareMain size := prepare_eq hhelp
    have hhelp' : d'.helpShown = false := by rw [hd', helpShown_prepareMain, hhelp]
    have hcursor' : d'.cursor ≤ d'.input.length := (hsound.prepare size).cursor
    have hscrolled : d'.Scrolled size.visibleInput := hd' ▸ scrolled_prepareMain hsize
    have hwindow := (hscrolled.cursor_lt_iff hcursor').1
    refine ⟨cursor_picture hhelp' hsize hwidth, fun hnarrow => ?_⟩
    have hbefore : width before = d'.cursor - d'.inputScroll := by
      rw [width_eq_length fun c hc => hnarrow c (mem_of_mem_shownBefore hc)]
      exact length_shownBefore hcursor' hwindow
    have hvisible := Size.one_le_visibleInput hsize
    omega

/-- Five characters are typed and the cursor is moved back by one. It is in a window of three
characters, and on a screen it is drawn behind the four characters before it. -/
theorem cursor_in_window_before_end :
    let s := Session.new ⟨[], ⟨"h.log"⟩⟩ ⟨"/"⟩
    let keys : List Key := [.char '1', .char '+', .char '2', .char '/', .char '3', .left]
    let d := (Desk.new s (.empty [])).acts (keys.map (.press · {} 0))
    let d' := (d.draw Size.minimum).1
    (d.adjustScroll 3).cursor < (d.adjustScroll 3).inputScroll + 3 ∧
      (d.draw Size.minimum).2.cursor = some (7, 1) ∧
      (width (d'.shownBefore 46) < 46 ↔ d'.cursor < d'.inputScroll + 46) := by
  intro s keys d d'
  have hbehind : (d.adjustScroll 3).cursor < (d.adjustScroll 3).input.length := by decide +kernel
  have hhelp : d.helpShown = false := by decide +kernel
  have hbefore : width (d'.shownBefore 46) = 4 := by decide +kernel
  have hnarrow : ∀ c ∈ d'.input, charWidth c = 1 := by
    have hall : d'.input.all (charWidth · = 1) = true := by decide +kernel
    exact fun c hc => of_decide_eq_true (List.all_eq_true.1 hall c hc)
  obtain ⟨hwindow, hdrawn⟩ := cursor_in_window (s := s) rfl (.empty []) (keys.map (.press · {} 0))
  obtain ⟨hcell, hown⟩ := hdrawn Size.minimum hhelp rfl (by decide)
  refine ⟨(hwindow 3 (by decide)).2.2.2 (.inl hbehind), hcell.trans ?_, hown hnarrow⟩
  show some (3 + min (width (d'.shownBefore 46)) 45, 1) = some (7, 1)
  rw [hbefore]
  rfl

/-- Behind 46 characters there is no room for the cursor in a field of as many columns: it is not in
the window, and while the characters take up the columns from 3 to 48, it is drawn in column 48. -/
theorem not_cursor_in_window :
    let s := Session.new ⟨[], ⟨"h.log"⟩⟩ ⟨"/"⟩
    let line := "1234567890123456789012345678901234567890123456".toList
    let d := (Desk.new s (.empty [])).acts (line.map fun c => .press (.char c) {} 0)
    ¬ (d.adjustScroll 46).cursor < (d.adjustScroll 46).inputScroll + 46 ∧
      width ((d.draw Size.minimum).1.shownBefore 46) = 46 ∧
      (d.draw Size.minimum).2.cursor = some (48, 1) := by
  intro s line d
  have hd : d = { Desk.new s (.empty []) with input := line, cursor := 46 } := by decide +kernel
  rw [hd]
  decide +kernel

end Reckoner.Desk
