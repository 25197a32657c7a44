import Reckoner.Desk.Input
import Reckoner.Desk.View
import Reckoner.Proofs.Desk.Editing
import Reckoner.Proofs.Session.Calls

/-!
# What holds at every desk

A desk is acted on by keys, by the mouse wheel and by drawing it. Whatever is done, one after the
other and beginning with a session that goes on, the desk stays `Sound`: the cursor is not beyond
the line, the selected entry is one of the transcript unless there is none, the desk is to be left
exactly when the session is finished, and the help is only scrolled while it is shown
(`Sound.acts`). Each operation is looked at by itself, and only in what it changes.

While the help is shown, keys and wheel have nothing to do with anything else (`press_of_help`,
`wheel_of_help`).
-/

namespace Reckoner.Desk

open Files Text

/-! ### Actions -/

/-- The cursor one character to the left for `-1`, to the right for `1`, and no move otherwise. -/
def moveCursor (d : Desk) (direction : Int) : Desk :=
  if direction = -1 then d.moveLeft else if direction = 1 then d.moveRight else d

/-- What can be done at a desk. -/
inductive Action where
  /-- A key, and how long the session takes if a line is submitted. -/
  | press (key : Key) (held : Modifiers) (elapsed : Nat)
  | wheel (w : Wheel)
  /-- Draw the help or the main view, whichever is shown. -/
  | draw (s : Size)
  /-- Draw the main view. -/
  | drawMain (s : Size)
  /-- Scroll the line to the cursor. -/
  | adjustScroll (visible : Nat)
  | moveCursor (direction : Int)
deriving DecidableEq, Repr

/-- The desk after an action. -/
def act (d : Desk) : Action → Desk
  | .press key held elapsed => d.press key held elapsed
  | .wheel w => d.wheel w
  | .draw s => (d.draw s).1
  | .drawMain s => d.prepareMain s
  | .adjustScroll visible => d.adjustScroll visible
  | .moveCursor direction => d.moveCursor direction

/-- The desk after actions, one after the other. -/
def acts (d : Desk) (actions : List Action) : Desk := actions.foldl act d

/-! ### The invariant -/

/-- What holds of a desk, whatever is done at it. -/
structure Sound (d : Desk) : Prop where
  /-- The cursor is not beyond the line. -/
  cursor : d.cursor ≤ d.input.length
  /-- The last entry is the last that can be selected. -/
  selected : d.selected ≤ d.transcript.length - 1
  /-- The desk is left when the session is finished. -/
  leaving : d.leaving = d.session.isFinished
  /-- Hidden help is not scrolled. -/
  helpScroll : d.helpShown = false → d.helpScroll = 0

namespace Sound

variable {d : Desk}

theorem new {s : Session} (hs : s.isFinished = false) (t : Tree) : (Desk.new s t).Sound :=
  ⟨Nat.le_refl 0, Nat.le_refl 0, hs.symm, fun _ => rfl⟩

/-! ### The line -/

theorem clearInput (h : d.Sound) : d.clearInput.Sound :=
  ⟨Nat.le_refl 0, h.selected, h.leaving, h.helpScroll⟩

theorem insertChar (h : d.Sound) (c : Char) : (d.insertChar c).Sound := by
  refine ⟨?_, h.selected, h.leaving, h.helpScroll⟩
  show d.cursor + 1 ≤ (d.input.insertIdx (min d.cursor d.input.length) c).length
  rw [List.length_insertIdx_of_le_length (Nat.min_le_right _ _)]
  exact Nat.succ_le_succ h.cursor

theorem deleteAtCursor (h : d.Sound) : d.deleteAtCursor.Sound := by
  refine ⟨?_, h.selected, h.leaving, h.helpScroll⟩
  have hcursor := h.cursor
  show d.cursor ≤ (d.input.eraseIdx d.cursor).length
  rw [List.length_eraseIdx]
  split_ifs <;> omega

theorem moveLeft (h : d.Sound) : d.moveLeft.Sound :=
  ⟨(Nat.sub_le _ _).trans h.cursor, h.selected, h.leaving, h.helpScroll⟩

theorem deleteBeforeCursor (h : d.Sound) : d.deleteBeforeCursor.Sound := by
  rw [Desk.deleteBeforeCursor]
  split_ifs
  · exact h
  · exact h.moveLeft.deleteAtCursor

theorem moveRight (h : d.Sound) : d.moveRight.Sound :=
  ⟨Nat.min_le_right _ _, h.selected, h.leaving, h.helpScroll⟩

theorem moveCursor (h : d.Sound) (direction : Int) : (d.moveCursor direction).Sound := by
  rw [Desk.moveCursor]
  split_ifs
  · exact h.moveLeft
  · exact h.moveRight
  · exact h

theorem moveHome (h : d.Sound) : d.moveHome.Sound :=
  ⟨Nat.zero_le _, h.selected, h.leaving, h.helpScroll⟩

theorem moveEnd (h : d.Sound) : d.moveEnd.Sound :=
  ⟨Nat.le_refl _, h.selected, h.leaving, h.helpScroll⟩

theorem moveWordLeft (h : d.Sound) : d.moveWordLeft.Sound := by
  refine ⟨?_, h.selected, h.leaving, h.helpScroll⟩
  have hsuffix : ((d.input.take d.cursor).reverse.dropWhile isBlank).dropWhile (!isBlank ·) <:+
      (d.input.take d.cursor).reverse :=
    (List.dropWhile_suffix _).trans (List.dropWhile_suffix _)
  calc _ ≤ (d.input.take d.cursor).reverse.length := hsuffix.length_le
    _ = (d.input.take d.cursor).length := List.length_reverse
    _ ≤ d.input.length := (List.take_prefix _ _).length_le

theorem moveWordRight (h : d.Sound) : d.moveWordRight.Sound :=
  ⟨Nat.sub_le _ _, h.selected, h.leaving, h.helpScroll⟩

theorem adjustScroll (h : d.Sound) (visible : Nat) : (d.adjustScroll visible).Sound :=
  ⟨h.cursor, h.selected, h.leaving, h.helpScroll⟩

/-! ### The selected entry -/

/-- Any entry of the transcript may be selected. -/
theorem select (h : d.Sound) {n : Nat} (hn : n ≤ d.transcript.length - 1) :
    ({ d with selected := n } : Desk).recallSelected.Sound :=
  ⟨Nat.le_refl _, hn, h.leaving, h.helpScroll⟩

theorem selectPrevious (h : d.Sound) : d.selectPrevious.Sound :=
  h.select ((Nat.sub_le _ _).trans h.selected)

theorem selectNext (h : d.Sound) : d.selectNext.Sound := by
  refine h.select ?_
  have hselected := h.selected
  split_ifs <;> omega

theorem selectPageUp (h : d.Sound) : d.selectPageUp.Sound :=
  h.select ((Nat.sub_le _ _).trans h.selected)

theorem selectPageDown (h : d.Sound) : d.selectPageDown.Sound :=
  h.select (Nat.min_le_right _ _)

/-! ### The session -/

/-- Recording selects the new entry; whether the desk is to be left is settled with it. -/
theorem record (h : d.Sound) (s : Session) (t : Tree) (e : Entry) {leaving : Bool}
    (hleaving : leaving = s.isFinished) :
    ({ ({ d with session := s, tree := t } : Desk).record e with leaving } : Desk).Sound := by
  refine ⟨Nat.le_refl 0, ?_, hleaving, h.helpScroll⟩
  show d.transcript.length ≤ (d.transcript ++ [e]).length - 1
  rw [List.length_append, List.length_singleton, Nat.add_sub_cancel]

theorem submit (h : d.Sound) (elapsed : Nat) : (d.submit elapsed).Sound := by
  rw [Desk.submit]
  split_ifs
  · exact h
  · exact h.record _ _ _ rfl

theorem quit (h : d.Sound) : d.quit.Sound := by
  refine h.record _ _ _ ?_
  rw [Session.finish_session, Session.isFinished]
  rfl

/-! ### The help and the views -/

theorem openHelp (h : d.Sound) : d.openHelp.Sound :=
  ⟨h.cursor, h.selected, h.leaving, fun _ => rfl⟩

theorem closeHelp (h : d.Sound) : d.closeHelp.Sound :=
  ⟨h.cursor, h.selected, h.leaving, fun _ => rfl⟩

/-- Help that is shown may be scrolled. -/
theorem scrollHelp (h : d.Sound) (hshown : d.helpShown = true) (n : Nat) :
    ({ d with helpScroll := n } : Desk).Sound := by
  refine ⟨h.cursor, h.selected, h.leaving, fun hhidden => ?_⟩
  cases hshown.symm.trans hhidden

theorem placeTranscript (h : d.Sound) (list : Screen.Area) : (d.placeTranscript list).Sound := by
  by_cases hempty : d.transcript = []
  · rw [Desk.placeTranscript, if_pos hempty]
    exact h
  · rw [Desk.placeTranscript, if_neg hempty]
    exact ⟨h.cursor, h.selected, h.leaving, h.helpScroll⟩

theorem prepareMain (h : d.Sound) (s : Size) : (d.prepareMain s).Sound := by
  rw [Desk.prepareMain]
  split_ifs
  · exact ⟨h.cursor, h.selected, h.leaving, h.helpScroll⟩
  · have hsize : ({ d with tooSmall := false } : Desk).Sound :=
      ⟨h.cursor, h.selected, h.leaving, h.helpScroll⟩
    have hplaced := (hsize.adjustScroll s.visibleInput).placeTranscript s.transcriptArea.inner
    exact ⟨hplaced.cursor, hplaced.selected, hplaced.leaving, hplaced.helpScroll⟩

theorem prepare (h : d.Sound) (s : Size) : (d.prepare s).Sound := by
  rw [Desk.prepare]
  split_ifs
  · exact h
  · exact h.prepareMain s

/-! ### Every action -/

theorem pressInHelp (h : d.Sound) (hshown : d.helpShown = true) (key : Key) :
    (d.pressInHelp key).Sound := by
  cases key with
  | down | up | pageDown | pageUp => exact h.scrollHelp hshown _
  | escape => exact h.closeHelp
  | function n =>
    rw [Desk.pressInHelp]
    split_ifs
    · exact h.closeHelp
    · exact h
  | char | enter | backspace | delete | left | right | home | endOfLine | other => exact h

theorem pressChar (h : d.Sound) (c : Char) (held : Modifiers) : (d.pressChar c held).Sound := by
  rw [Desk.pressChar]
  split_ifs
  · exact h.quit
  · exact h.clearInput
  · exact h
  · exact h.insertChar c

theorem pressOutsideHelp (h : d.Sound) (held : Modifiers) (elapsed : Nat) (key : Key) :
    (d.pressOutsideHelp held elapsed key).Sound := by
  cases key with
  | char c => exact h.pressChar c held
  | backspace => exact h.deleteBeforeCursor
  | delete => exact h.deleteAtCursor
  | left =>
    rw [Desk.pressOutsideHelp]
    split_ifs
    · exact h.moveWordLeft
    · exact h.moveLeft
  | right =>
    rw [Desk.pressOutsideHelp]
    split_ifs
    · exact h.moveWordRight
    · exact h.moveRight
  | home => exact h.moveHome
  | endOfLine => exact h.moveEnd
  | up => exact h.selectPrevious
  | down => exact h.selectNext
  | pageUp => exact h.selectPageUp
  | pageDown => exact h.selectPageDown
  | enter => exact h.submit elapsed
  | function n =>
    rw [Desk.pressOutsideHelp]
    split_ifs
    · exact h.openHelp
    · exact h
  | escape | other => exact h

theorem wheel (h : d.Sound) (w : Wheel) : (d.wheel w).Sound := by
  rw [Desk.wheel]
  split_ifs with hshown
  · exact h.scrollHelp hshown _
  · exact ⟨h.cursor, h.selected, h.leaving, h.helpScroll⟩

/-- Every action leaves a sound desk sound. -/
theorem act (h : d.Sound) (a : Action) : (d.act a).Sound := by
  cases a with
  | press key held elapsed =>
    rw [Desk.act, Desk.press]
    split_ifs with hshown
    · exact h.pressInHelp hshown key
    · exact h.pressOutsideHelp held elapsed key
  | wheel w => exact h.wheel w
  | draw s => exact h.prepare s
  | drawMain s => exact h.prepareMain s
  | adjustScroll visible => exact h.adjustScroll visible
  | moveCursor direction => exact h.moveCursor direction

/-- So do actions, one after the other. -/
theorem acts (h : d.Sound) (actions : List Action) : (d.acts actions).Sound := by
  induction actions generalizing d with
  | nil => exact h
  | cons a actions ih => exact ih (h.act a)

end Sound

/-! ### While the help is shown -/

variable {d : Desk}

/-- A key scrolls the help or hides it. -/
theorem press_of_help (h : d.helpShown = true) (key : Key) (held : Modifiers) (elapsed : Nat) :
    ∃ shown scroll, d.press key held elapsed =
      { d with helpShown := shown, helpScroll := scroll } := by
  rw [press, if_pos h]
  cases key with
  | down | up | pageDown | pageUp => exact ⟨d.helpShown, _, rfl⟩
  | escape => exact ⟨false, 0, rfl⟩
  | function n =>
    rw [pressInHelp]
    split_ifs
    · exact ⟨false, 0, rfl⟩
    · exact ⟨d.helpShown, d.helpScroll, rfl⟩
  | char | enter | backspace | delete | left | right | home | endOfLine | other =>
    exact ⟨d.helpShown, d.helpScroll, rfl⟩

/-- The wheel scrolls the help. -/
theorem wheel_of_help (h : d.helpShown = true) (w : Wheel) :
    ∃ scroll, d.wheel w = { d with helpScroll := scroll } := by
  rw [wheel, if_pos h]
  exact ⟨_, rfl⟩

/-! ### Every desk -/

/-- **What holds at every desk** that was begun with a session that goes on, whatever has been done
at it. The cursor is not beyond the line; the selected entry is in the transcript, or the first if
that is empty; the desk is to be left exactly when the session is finished; hidden help is not
scrolled; no operation on the line goes outside it; and while the help is shown, keys and wheel
change nothing but the help. -/
theorem sound_acts {s : Session} (hs : s.isFinished = false) (t : Tree) (actions : List Action) :
    let d := (Desk.new s t).acts actions
    d.cursor ≤ d.input.length ∧
    (d.transcript = [] → d.selected = 0) ∧
    (d.transcript ≠ [] → d.selected < d.transcript.length) ∧
    (d.leaving = true ↔ d.session.isFinished = true) ∧
    (d.helpShown = false → d.helpScroll = 0) ∧
    d.KeepsInside ∧
    (d.helpShown = true →
      (∀ key held elapsed, ∃ shown scroll, d.press key held elapsed =
        { d with helpShown := shown, helpScroll := scroll }) ∧
      ∀ w, ∃ scroll, d.wheel w = { d with helpScroll := scroll }) := by
  intro d
  have h : d.Sound := (Sound.new hs t).acts actions
  refine ⟨h.cursor, fun hnil => ?_, fun hne => ?_, ?_, h.helpScroll,
    keepsInside_of_cursor h.cursor, fun hshown => ⟨press_of_help hshown, wheel_of_help hshown⟩⟩
  · have hselected := h.selected
    rw [hnil] at hselected
    exact Nat.eq_zero_of_le_zero hselected
  · exact Nat.lt_of_le_pred (List.length_pos_iff.2 hne) h.selected
  · rw [h.leaving]

/-- A line is submitted, recalled and looked through for words, the desk is drawn, and then the help
is shown and scrolled. -/
theorem sound_acts_in_help :
    let s := Session.new ⟨[], ⟨"h.log"⟩⟩ ⟨"/"⟩
    let actions : List Action := [.press (.char 'π') {} 0, .press (.char ' ') {} 0,
      .press (.char '1') {} 0, .press .enter {} 0, .press .up {} 0,
      .press .left { ctrl := true } 0, .draw ⟨80, 24⟩, .press (.function 1) {} 0, .wheel .down]
    let d := (Desk.new s (.empty [])).acts actions
    d.helpShown = true ∧ d.cursor ≤ d.input.length ∧ d.selected < d.transcript.length ∧
      d.KeepsInside ∧
      ∃ scroll, d.wheel .up = { d with helpScroll := scroll } := by
  intro s actions d
  have hs : s.isFinished = false := rfl
  have hshown : d.helpShown = true := by decide +kernel
  have hne : d.transcript ≠ [] := by decide +kernel
  obtain ⟨hcursor, -, hselected, -, -, hinside, hhelp⟩ := sound_acts hs (.empty []) actions
  exact ⟨hshown, hcursor, hselected hne, hinside, (hhelp hshown).2 .up⟩

end Reckoner.Desk
