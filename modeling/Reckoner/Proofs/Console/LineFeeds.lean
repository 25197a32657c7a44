import Mathlib.Data.List.Basic
import Mathlib.Data.List.Infix
import Reckoner.Proofs.Console.Draft
import Reckoner.Proofs.Text.Lines

/-!
# Line feeds in raw mode

On a terminal in raw mode a line feed alone leaves the cursor in its column. So the line editor must
never write one without a carriage return before it (`NoBareFeed`). Messages can have many lines,
but they are cut at their line feeds and written line by line (`noBareFeed_messageChars`). A line
that is being edited is written as it is, so it must not contain a line feed: no key puts one in
(`not_mem_press`), and the lines that can be recalled were edited lines before.

That is what the line editor keeps while it shows messages and asks for lines (`Raw`), and what a
console keeps then, every dialogue over it keeps (`Console.converse_of_keeps`).
-/

namespace Reckoner

open Files

/-- What a console keeps when it shows a message or is asked for a line, a dialogue keeps. -/
theorem Console.converse_of_keeps {κ : Type} {c : Console κ} {motive : κ → Prop}
    (hdisplay : ∀ {k}, motive k → ∀ message, motive (c.display message k))
    (hask : ∀ {k}, motive k → ∀ s : Session, motive (c.ask s.prompt k).console)
    (s : Session) (t : Tree) {k : κ} (hk : motive k) : motive (c.converse s t k).console := by
  induction hn : c.remaining k using Nat.strong_induction_on generalizing s t k with
  | _ n ih =>
    by_cases hs : s.isFinished = true
    · rwa [converse_of_finished hs]
    · have hafter := hask hk s
      rw [converse_of_not_finished (Bool.eq_false_iff.2 hs)]
      cases hsupply : c.ask s.prompt k with
      | broken why k' =>
        rw [hsupply] at hafter
        exact hafter
      | closed k' =>
        rw [hsupply] at hafter
        exact displayAll_of_display hdisplay hafter _
      | line text k' =>
        rw [hsupply] at hafter
        -- the line has used some of the input, and the replies use none
        have hless := c.remaining_ask _ _ _ _ hsupply
        have hle := c.remaining_displayAll (s.submit t text).replies k'
        exact ih _ (by omega) _ _ (displayAll_of_display hdisplay hafter _) rfl

namespace LineEditor

open Files Text

/-- Every line feed stands directly behind a carriage return. -/
def NoBareFeed (cs : List Char) : Prop :=
  ∀ before behind, cs = before ++ '\n' :: behind → before.getLast? = some '\r'

namespace NoBareFeed

variable {cs ds : List Char}

theorem of_not_mem (h : '\n' ∉ cs) : NoBareFeed cs := by
  rintro before behind rfl
  exact absurd (List.mem_append_right _ List.mem_cons_self) h

theorem append (hcs : NoBareFeed cs) (hds : NoBareFeed ds) : NoBareFeed (cs ++ ds) := by
  intro before behind h
  obtain ⟨more, rfl, hmore⟩ | ⟨more, rfl, hmore⟩ := List.append_eq_append_iff.1 h
  · -- the line feed is in the second text
    have hlast := hds more behind hmore
    rw [List.getLast?_append, hlast]
    rfl
  · cases more with
    | nil =>
      have hlast := hds [] behind hmore.symm
      cases hlast
    | cons c more =>
      rw [List.cons_append, List.cons.injEq] at hmore
      obtain ⟨rfl, -⟩ := hmore
      exact hcs before more rfl

theorem flatten {pieces : List (List Char)} (h : ∀ piece ∈ pieces, NoBareFeed piece) :
    NoBareFeed pieces.flatten := by
  induction pieces with
  | nil => exact of_not_mem List.not_mem_nil
  | cons piece pieces ih =>
    rw [List.forall_mem_cons] at h
    exact h.1.append (ih h.2)

end NoBareFeed

/-! ### What is written -/

theorem noBareFeed_newLine : NoBareFeed newLine := by
  intro before behind h
  rcases before with _ | ⟨a, _ | ⟨b, before⟩⟩
  · cases h
  · cases h
    rfl
  · simp [newLine] at h

theorem noBareFeed_line {line : List Char} (h : '\n' ∉ line) : NoBareFeed (line ++ newLine) :=
  (NoBareFeed.of_not_mem h).append noBareFeed_newLine

/-- A message is written line by line, whatever it says. -/
theorem noBareFeed_messageChars (message : String) : NoBareFeed (messageChars message) := by
  rw [messageChars, List.flatMap_def]
  refine NoBareFeed.flatten fun piece hpiece => ?_
  obtain ⟨line, hline, rfl⟩ := List.mem_map.1 hpiece
  exact noBareFeed_line (not_mem_of_mem_lines hline)

theorem not_mem_prompt (s : Session) : '\n' ∉ s.prompt.toList := by
  rw [Session.prompt]
  split_ifs <;> decide

theorem not_mem_goto (column row : Nat) : '\n' ∉ goto column row := by
  have hdigits (n : Nat) : '\n' ∉ (toString n).toList := by
    intro hmem
    rw [Nat.toString_eq_repr, Nat.toList_repr] at hmem
    exact absurd (Nat.isDigit_of_mem_toDigits (by decide) (by decide) hmem) (by decide)
  simp only [goto, String.toList_append, List.mem_append, not_or]
  exact ⟨⟨⟨⟨by decide, hdigits row⟩, by decide⟩, hdigits column⟩, by decide⟩

theorem not_mem_drawing {e : Edit} (h : '\n' ∉ e.line) (row : Nat) : '\n' ∉ drawing row e := by
  simp only [drawing, List.mem_append, not_or]
  exact ⟨⟨⟨⟨not_mem_goto 1 row, by decide⟩, by decide⟩, h⟩, not_mem_goto _ row⟩

/-! ### Editing -/

section Editing

variable {earlier : List (List Char)} {e e' : Edit}

theorem not_mem_recallLine (hearlier : ∀ line ∈ earlier, '\n' ∉ line) (n : Nat) :
    '\n' ∉ (Edit.recallLine earlier n).line := by
  rw [Edit.recallLine, List.getD_eq_getElem?_getD]
  cases h : earlier[n]? with
  | none => exact List.not_mem_nil
  | some line => exact hearlier line (List.mem_of_getElem? h)

/-- No key puts a line feed into the line. -/
theorem not_mem_press (hearlier : ∀ line ∈ earlier, '\n' ∉ line) (he : '\n' ∉ e.line) {key : Key}
    (h : e.press earlier key = .edited e') : '\n' ∉ e'.line := by
  cases key with
  | char c =>
    rw [Edit.press] at h
    split_ifs at h with hc
    cases h
    rw [Edit.insert, List.mem_append, List.mem_cons, not_or, not_or]
    exact ⟨fun hmem => he (List.mem_of_mem_take hmem), Ne.symm hc,
      fun hmem => he (List.mem_of_mem_drop hmem)⟩
  | ctrl c =>
    rw [Edit.press] at h
    split_ifs at h <;> cases h
    · exact he
    · exact List.not_mem_nil
    · exact he
  | backspace =>
    cases h
    rw [Edit.backspace]
    split_ifs
    · exact fun hmem => he (List.mem_of_mem_eraseIdx hmem)
    · exact he
  | delete =>
    cases h
    exact fun hmem => he (List.mem_of_mem_eraseIdx hmem)
  | right =>
    cases h
    rw [Edit.right]
    split_ifs <;> exact he
  | up =>
    cases h
    rw [Edit.up]
    split_ifs
    · exact not_mem_recallLine hearlier _
    · exact he
  | down =>
    cases h
    exact not_mem_recallLine hearlier _
  | left | home | endOfLine | other =>
    cases h
    exact he

end Editing

/-! ### The terminal -/

/-- All that was written to a screen. -/
def Screen.text (screen : Screen) : List Char := screen.pieces.flatten

namespace Screen

variable {screen screen' : Screen}

theorem text_eq (screen : Screen) :
    screen.text = screen.earlier.reverse.flatten ++ screen.current := by
  rw [text, pieces, List.reverse_cons, List.flatten_append, List.flatten_singleton]

theorem text_write? {cs : List Char} (h : screen.write? cs = some screen') :
    screen'.text = screen.text ++ cs := by
  rw [write?] at h
  split_ifs at h
  cases h
  rw [text_eq, text_eq, List.append_assoc]

@[simp]
theorem text_cut (screen : Screen) : screen.cut.text = screen.text := by
  rw [text_eq, text_eq, cut, List.append_nil, List.reverse_cons, List.flatten_append,
    List.flatten_singleton]

/-- The screen has no bare line feed, and it began with some text. -/
structure Raw (first : List Char) (screen : Screen) : Prop where
  begins : first <+: screen.text
  noBareFeed : NoBareFeed screen.text

namespace Raw

variable {first cs : List Char}

theorem write? (h : screen.Raw first) (hcs : NoBareFeed cs)
    (hwrite : screen.write? cs = some screen') : screen'.Raw first := by
  have htext := text_write? hwrite
  refine ⟨?_, ?_⟩
  · rw [htext]
    exact h.begins.trans (List.prefix_append _ _)
  · rw [htext]
    exact h.noBareFeed.append hcs

theorem write (h : screen.Raw first) (hcs : NoBareFeed cs) : (screen.write cs).Raw first := by
  rw [Screen.write]
  cases hwrite : screen.write? cs with
  | none => exact h
  | some screen' => exact h.write? hcs hwrite

theorem cut (h : screen.Raw first) : screen.cut.Raw first := by
  refine ⟨?_, ?_⟩
  · rw [text_cut]
    exact h.begins
  · rw [text_cut]
    exact h.noBareFeed

theorem breaking (h : screen.Raw first) (part : Part) : (screen.breaking part).Raw first :=
  ⟨h.begins, h.noBareFeed⟩

end Raw

end Screen

/-- The screen has no bare line feed, and the lines that can be recalled have none at all. -/
structure State.Raw (first : List Char) (k : State) : Prop where
  screen : k.screen.Raw first
  earlier : ∀ line ∈ k.earlier, '\n' ∉ line

variable {first : List Char} {k : State} {screen : Screen} {e : Edit}

theorem raw_display (hk : k.Raw first) (message : String) :
    (console.display message k).Raw first :=
  ⟨hk.screen.write (noBareFeed_messageChars message), hk.earlier⟩

/-- A line that was entered can be recalled. -/
theorem raw_entered (hk : k.Raw first) (hscreen : screen.Raw first) (strokes : List Stroke)
    {line : List Char} (hline : '\n' ∉ line) :
    (entered k screen strokes line).console.Raw first := by
  rw [entered]
  cases hwrite : screen.write? newLine with
  | none => exact ⟨hscreen, hk.earlier⟩
  | some ended =>
    refine ⟨hscreen.write? noBareFeed_newLine hwrite, ?_⟩
    show ∀ l ∈ if isBlankLine line then k.earlier else k.earlier ++ [line], '\n' ∉ l
    split_ifs
    · exact hk.earlier
    · rw [List.forall_mem_append, List.forall_mem_singleton]
      exact ⟨hk.earlier, hline⟩

/-- While a line is edited it has no line feed, so drawing it writes none. -/
theorem raw_edit (hk : k.Raw first) (hscreen : screen.Raw first) (he : '\n' ∉ e.line)
    (strokes : List Stroke) : (edit k screen e strokes).console.Raw first := by
  induction strokes generalizing screen e with
  | nil =>
    rw [edit]
    cases hwrite : screen.write? (drawing k.row e) with
    | none => exact ⟨hscreen, hk.earlier⟩
    | some drawn =>
      have hdrawn := hscreen.write? (.of_not_mem (not_mem_drawing he k.row)) hwrite
      exact ⟨hdrawn.cut, hk.earlier⟩
  | cons stroke strokes ih =>
    rw [edit]
    cases hwrite : screen.write? (drawing k.row e) with
    | none => exact ⟨hscreen, hk.earlier⟩
    | some drawn =>
      have hdrawn := (hscreen.write? (.of_not_mem (not_mem_drawing he k.row)) hwrite).cut
      cases stroke with
      | failure message => exact ⟨hdrawn, hk.earlier⟩
      | breaks part => exact ih (hdrawn.breaking part) he
      | key key =>
        dsimp only
        cases hpress : e.press k.earlier key with
        | edited next => exact ih hdrawn (not_mem_press hk.earlier he hpress)
        | closed => exact ⟨hdrawn, hk.earlier⟩
        | entered => exact raw_entered hk hdrawn strokes he

theorem raw_ask (hk : k.Raw first) (s : Session) : (ask s.prompt k).console.Raw first := by
  rw [ask]
  cases hwrite : k.screen.write? (s.prompt.toList ++ newLine) with
  | none => exact hk
  | some screen =>
    have hscreen := hk.screen.write? (noBareFeed_line (not_mem_prompt s)) hwrite
    dsimp only
    split_ifs
    · exact ⟨hscreen, hk.earlier⟩
    · exact raw_edit hk hscreen List.not_mem_nil k.strokes

/-- A dialogue writes no bare line feed behind what there is. -/
theorem raw_converse (hk : k.Raw first) (s : Session) (t : Tree) :
    (console.converse s t k).console.Raw first :=
  Console.converse_of_keeps raw_display raw_ask s t hk

/-- **Raw mode has no bare line feeds.** Whatever is in the history, whatever the path is, whatever
is typed and whatever fails in the terminal: in all that the line editor writes to the screen, each
line feed stands directly behind a carriage return. Unless the terminal fails from the beginning,
the banner is written first, every line of it ended so. Nothing is said about a message that the
screen does not take: it goes to the error stream with the line feeds that it has, and that stream
is no part of the screen (`Screen.write`). -/
theorem noBareFeed_run (s : Session) (t : Tree) (strokes : List Stroke) (row : Nat)
    (broken : List Part) :
    let written := (run s t (.start strokes row broken)).console.screen.pieces.flatten
    (∀ before behind, written = before ++ '\n' :: behind → before.getLast? = some '\r') ∧
      (Part.rawMode ∉ broken → Part.output ∉ broken →
        (lines s.banner.toList).flatMap (· ++ ['\r', '\n']) <+: written) := by
  intro written
  by_cases hmode : Part.rawMode ∈ broken
  · have hrun : run s t (.start strokes row broken) =
        ⟨s, t, .start strokes row broken, some rawModeFailed⟩ :=
      if_pos (List.contains_iff_mem.2 hmode)
    have hnone : written = [] := congrArg (·.console.screen.pieces.flatten) hrun
    rw [hnone]
    exact ⟨NoBareFeed.of_not_mem List.not_mem_nil, fun h => absurd hmode h⟩
  · -- from the banner on, the text only grows
    let shown := console.display s.banner (.start strokes row broken)
    have hrun : run s t (.start strokes row broken) = console.converse s t shown :=
      if_neg (mt List.contains_iff_mem.1 hmode)
    have hstart : (State.start strokes row broken).Raw [] :=
      ⟨⟨List.nil_prefix, .of_not_mem List.not_mem_nil⟩, fun _ h => absurd h List.not_mem_nil⟩
    have hshown : shown.Raw shown.screen.text :=
      ⟨⟨List.prefix_rfl, (raw_display hstart s.banner).screen.noBareFeed⟩, hstart.earlier⟩
    have hraw : (run s t (.start strokes row broken)).console.Raw shown.screen.text := by
      rw [hrun]
      exact raw_converse hshown s t
    refine ⟨hraw.screen.noBareFeed, fun _ houtput => ?_⟩
    have hbanner : shown.screen.text = messageChars s.banner := by
      have hwrite : (Screen.blank broken).write? (messageChars s.banner) =
          some ⟨[], messageChars s.banner, broken⟩ :=
        if_neg (mt List.contains_iff_mem.1 houtput)
      show ((Screen.blank broken).write (messageChars s.banner)).text = _
      rw [Screen.write, hwrite, Option.getD_some, Screen.text_eq]
      rfl
    rw [show (lines s.banner.toList).flatMap (· ++ ['\r', '\n']) = shown.screen.text from
      hbanner.symm]
    exact hraw.screen.begins

/-- The banner has two lines if the path has a line feed. -/
theorem noBareFeed_run_path :
    let written := (run (.new ⟨["1 = 1", "2 = 2"], ⟨"a\nb"⟩⟩ ⟨"/"⟩) (.empty [])
      (.start [.key (.char 'h'), .key (.char '\n')] 1 [])).console.screen.pieces.flatten
    let before := "Calculator started. Default history file: a\r".toList
    (∃ behind, written = before ++ '\n' :: 'b' :: behind) ∧ before.getLast? = some '\r' := by
  intro written before
  obtain ⟨hfeeds, hbanner⟩ := noBareFeed_run (.new ⟨["1 = 1", "2 = 2"], ⟨"a\nb"⟩⟩ ⟨"/"⟩)
    (.empty []) [.key (.char 'h'), .key (.char '\n')] 1 []
  obtain ⟨rest, hrest⟩ := hbanner List.not_mem_nil List.not_mem_nil
  have hsplit : written = before ++ '\n' :: 'b' :: '\r' :: '\n' :: rest := hrest.symm
  exact ⟨⟨_, hsplit⟩, hfeeds _ _ hsplit⟩

end LineEditor

end Reckoner
