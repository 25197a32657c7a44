import Reckoner.Proofs.Console.Editing
import Reckoner.Proofs.Console.LineEditor

/-!
# Drafts

A draft is a line that is being written, cut in two at the cursor, together with the earlier lines,
cut in two in front of the one that is recalled. Keys work at the cuts: nothing is counted, and
there is no index that could be wrong. The line editor is shown to do the same with its indices
(`Draft.press_edit`), so what it shows and hands over while its terminal works is what the draft
says (`follows_draft`).

A line that was entered is remembered unless it is blank, and nothing else is ever done to the
earlier lines (`earlier_serve`): what is written over a recalled line is written over a copy.
-/

namespace Reckoner

/-! ### Requests -/

/-- What is asked of a console. -/
inductive Request where
  | display (message : String)
  | ask (prompt : String)
deriving DecidableEq, Repr

/-- The line that was supplied, if there is one. -/
def Supply.line? {κ : Type} : Supply κ → Option String
  | .line text _ => some text
  | .closed _ | .broken _ _ => none

/-- The console after it has supplied a line, or nothing. -/
def Supply.console {κ : Type} : Supply κ → κ
  | .line _ k | .closed k | .broken _ k => k

/-- The supply of a line, or of nothing because the input has ended. -/
def Supply.given {κ : Type} (k : κ) : Option (List Char) → Supply κ
  | some cs => .line (String.ofList cs) k
  | none => .closed k

/-- The lines that a console supplies when it serves requests in turn, and the console
afterwards. -/
def Console.serve {κ : Type} (c : Console κ) : List Request → κ → List String × κ
  | [], k => ([], k)
  | .display message :: requests, k => c.serve requests (c.display message k)
  | .ask prompt :: requests, k =>
    let supply := c.ask prompt k
    let served := c.serve requests supply.console
    (supply.line?.toList ++ served.1, served.2)

namespace LineEditor

open Text

/-! ### Drafts -/

/-- A line that is being written. -/
structure Draft where
  /-- The text before the cursor. -/
  before : List Char
  /-- The text behind the cursor. -/
  behind : List Char
  /-- The earlier lines before the one that is recalled, the nearest first. -/
  above : List (List Char)
  /-- The one that is recalled and those after it. -/
  below : List (List Char)
deriving DecidableEq, Repr

namespace Draft

/-- An empty line, nothing recalled. -/
def start (earlier : List (List Char)) : Draft := ⟨[], [], earlier.reverse, []⟩

/-- The whole line. -/
def text (d : Draft) : List Char := d.before ++ d.behind

/-- Press a key that does not end the line. -/
def press (d : Draft) : Key → Draft
  | .char c => { d with before := d.before ++ [c] }
  | .ctrl c => if c = 'u' then { d with before := [], behind := [] } else d
  | .backspace => { d with before := d.before.dropLast }
  | .delete => { d with behind := d.behind.tail }
  | .left =>
    { d with before := d.before.dropLast, behind := d.before.getLast?.toList ++ d.behind }
  | .right => { d with before := d.before ++ d.behind.head?.toList, behind := d.behind.tail }
  | .home => { d with before := [], behind := d.text }
  | .endOfLine => { d with before := d.text, behind := [] }
  | .up =>
    match d.above with
    | [] => d
    | line :: above => ⟨line, [], above, line :: d.below⟩
  | .down =>
    match d.below with
    | [] => { d with before := [], behind := [] }
    | line :: below => ⟨below.headD [], [], line :: d.above, below⟩
  | .other => d

/-- Whether a key gives the line up: control-c, and control-d if the line is empty. -/
def GivesUp (d : Draft) (key : Key) : Prop :=
  key = .ctrl 'c' ∨ (key = .ctrl 'd' ∧ d.text = [])

instance (d : Draft) : DecidablePred d.GivesUp := fun _ => inferInstanceAs (Decidable (_ ∨ _))

/-- The draft after keys, if none of them ends the line. -/
def after? (d : Draft) : List Key → Option Draft
  | [] => some d
  | key :: keys =>
    if key = .char '\n' ∨ d.GivesUp key then none else (d.press key).after? keys

/-- Write a line: the text when the enter key is pressed, nothing if the line is given up or the
keys run out; and the keys that are left. -/
def write (d : Draft) : List Key → Option (List Char) × List Key
  | [] => (none, [])
  | key :: keys =>
    if key = .char '\n' then (some d.text, keys)
    else if d.GivesUp key then (none, keys)
    else (d.press key).write keys

end Draft

/-! ### One key -/

/-- The line editor after keys, if none of them ends the line. -/
def Edit.after? (earlier : List (List Char)) (e : Edit) : List Key → Option Edit
  | [] => some e
  | key :: keys =>
    match e.press earlier key with
    | .edited e' => e'.after? earlier keys
    | .entered | .closed => none

namespace Draft

variable {d : Draft} {earlier : List (List Char)} {key : Key} {keys : List Key}

/-- The draft as the line editor keeps it. -/
def edit (d : Draft) : Edit := ⟨d.text, d.before.length, d.above.length⟩

/-- The earlier lines are those of the draft. -/
def Holds (d : Draft) (earlier : List (List Char)) : Prop := d.above.reverse ++ d.below = earlier

theorem holds_start (earlier : List (List Char)) : (start earlier).Holds earlier := by
  rw [Holds, start, List.reverse_reverse, List.append_nil]

theorem edit_start (earlier : List (List Char)) : (start earlier).edit = .start earlier.length := by
  rw [edit, start, List.length_reverse]
  rfl

theorem length_above_le (h : d.Holds earlier) : d.above.length ≤ earlier.length := by
  rw [← h, List.length_append, List.length_reverse]
  exact Nat.le_add_right _ _

/-- Up and down only move the cut in the earlier lines. -/
theorem holds_press (h : d.Holds earlier) (key : Key) : (d.press key).Holds earlier := by
  obtain ⟨before, behind, above, below⟩ := d
  cases key with
  | up =>
    cases above with
    | nil => exact h
    | cons line above => rwa [Holds, List.reverse_cons, List.append_assoc] at h
  | down =>
    cases below with
    | nil => exact h
    | cons line below => rwa [press, Holds, List.reverse_cons, List.append_assoc]
  | ctrl c =>
    rw [press]
    split_ifs <;> exact h
  | char | backspace | delete | left | right | home | endOfLine | other => exact h

/-! #### At the cursor -/

theorem insert_edit (d : Draft) (c : Char) : d.edit.insert c = (d.press (.char c)).edit := by
  simp only [Edit.insert, edit, text, press, List.take_left, List.drop_left, List.append_assoc,
    List.singleton_append, List.length_append, List.length_singleton]

theorem backspace_edit (d : Draft) : d.edit.backspace = (d.press .backspace).edit := by
  obtain ⟨before, behind, above, below⟩ := d
  obtain rfl | ⟨before, c, rfl⟩ := List.eq_nil_or_concat before
  · rfl
  · simp [Edit.backspace, edit, text, press, eraseIdx_length_append]

theorem delete_edit (d : Draft) : d.edit.delete = (d.press .delete).edit := by
  simp only [Edit.delete, edit, text, press]
  rw [List.eraseIdx_append_of_length_le (Nat.le_refl _), Nat.sub_self, List.eraseIdx_zero]

theorem left_edit (d : Draft) : d.edit.left = (d.press .left).edit := by
  obtain ⟨before, behind, above, below⟩ := d
  obtain rfl | ⟨before, c, rfl⟩ := List.eq_nil_or_concat before
  · rfl
  · simp [Edit.left, edit, text, press]

theorem right_edit (d : Draft) : d.edit.right = (d.press .right).edit := by
  obtain ⟨before, behind, above, below⟩ := d
  cases behind with
  | nil => simp [Edit.right, edit, text, press]
  | cons c cs => simp [Edit.right, edit, text, press]

theorem toEnd_edit (d : Draft) : d.edit.toEnd = (d.press .endOfLine).edit := by
  simp only [Edit.toEnd, edit, text, press, List.append_nil]

/-! #### In the earlier lines -/

/-- Behind the lines above there is the first of those below, or an empty one. -/
theorem recallLine_append (above below : List (List Char)) :
    Edit.recallLine (above ++ below) above.length =
      ⟨below.headD [], (below.headD []).length, above.length⟩ := by
  rw [Edit.recallLine, List.getD_append_right _ _ _ _ (Nat.le_refl _), Nat.sub_self]
  cases below <;> rfl

theorem up_edit (h : d.Holds earlier) : d.edit.up earlier = (d.press .up).edit := by
  obtain ⟨before, behind, above, below⟩ := d
  cases above with
  | nil => rfl
  | cons line above =>
    subst h
    have hrecall := recallLine_append above.reverse (line :: below)
    rw [List.length_reverse] at hrecall
    simp only [Edit.up, edit, List.length_cons, press, List.reverse_cons, List.append_assoc,
      List.singleton_append, text, List.append_nil, Nat.zero_lt_succ, if_true, Nat.add_sub_cancel]
    exact hrecall

theorem down_edit (h : d.Holds earlier) : d.edit.down earlier = (d.press .down).edit := by
  obtain ⟨before, behind, above, below⟩ := d
  subst h
  cases below with
  | nil =>
    have hrecall := recallLine_append above.reverse []
    rw [List.length_reverse] at hrecall
    simp only [Edit.down, edit, press, List.append_nil, List.length_reverse,
      Nat.min_eq_right (Nat.le_succ above.length)] at hrecall ⊢
    exact hrecall
  | cons line below =>
    have hrecall := recallLine_append (above.reverse ++ [line]) below
    have hmin : min (above.length + 1) (above.reverse ++ line :: below).length =
        above.length + 1 := by
      rw [List.length_append, List.length_reverse, List.length_cons]
      omega
    rw [List.append_assoc, List.length_append, List.length_reverse] at hrecall
    simp only [Edit.down, edit, press, hmin, text, List.append_nil, List.length_cons]
    exact hrecall

theorem givesUp_ctrl_iff {c : Char} :
    d.GivesUp (.ctrl c) ↔ c = 'c' ∨ (c = 'd' ∧ d.text = []) := by
  rw [GivesUp, Key.ctrl.injEq, Key.ctrl.injEq]

/-- **A key does to the line editor what it does to the draft.** -/
theorem press_edit (h : d.Holds earlier) (key : Key) :
    d.edit.press earlier key =
      if key = .char '\n' then .entered
      else if d.GivesUp key then .closed
      else .edited (d.press key).edit := by
  cases key with
  | char c =>
    simp only [Edit.press, insert_edit, GivesUp, Key.char.injEq, reduceCtorEq, false_and, or_self,
      if_false]
  | ctrl c =>
    rw [if_neg (by simp)]
    by_cases hgives : d.GivesUp (.ctrl c)
    · rw [if_pos hgives]
      obtain rfl | ⟨rfl, htext⟩ := givesUp_ctrl_iff.1 hgives
      · rfl
      · exact if_pos htext
    · rw [if_neg hgives]
      rw [givesUp_ctrl_iff, not_or, not_and] at hgives
      rw [Edit.press, if_neg hgives.1, press]
      by_cases hend : c = 'd'
      · rw [if_pos hend, if_neg (by exact hgives.2 hend), hend]
        rfl
      · rw [if_neg hend]
        split_ifs <;> rfl
  | backspace => exact congrArg Effect.edited d.backspace_edit
  | delete => exact congrArg Effect.edited d.delete_edit
  | left => exact congrArg Effect.edited d.left_edit
  | right => exact congrArg Effect.edited d.right_edit
  | endOfLine => exact congrArg Effect.edited d.toEnd_edit
  | up => exact congrArg Effect.edited (up_edit h)
  | down => exact congrArg Effect.edited (down_edit h)
  | home | other => rfl

/-! ### Many keys -/

theorem holds_after? {d' : Draft} (h : d.Holds earlier) (hafter : d.after? keys = some d') :
    d'.Holds earlier := by
  induction keys generalizing d with
  | nil =>
    cases hafter
    exact h
  | cons key keys ih =>
    rw [after?] at hafter
    split_ifs at hafter
    exact ih (holds_press h key) hafter

/-- So do keys one after the other. -/
theorem after?_edit (h : d.Holds earlier) (keys : List Key) :
    d.edit.after? earlier keys = (d.after? keys).map edit := by
  induction keys generalizing d with
  | nil => rfl
  | cons key keys ih =>
    rw [Edit.after?, after?, press_edit h]
    by_cases henter : key = .char '\n'
    · rw [if_pos henter, if_pos (.inl henter)]
      rfl
    · by_cases hgives : d.GivesUp key
      · rw [if_neg henter, if_pos hgives, if_pos (.inr hgives)]
        rfl
      · rw [if_neg henter, if_neg hgives, if_neg (not_or.2 ⟨henter, hgives⟩)]
        exact ih (holds_press h key)

theorem take_edit (d : Draft) : d.edit.line.take d.edit.cursor = d.before := List.take_left

theorem drop_edit (d : Draft) : d.edit.line.drop d.edit.cursor = d.behind := List.drop_left

theorem cursor_edit_le (d : Draft) : d.edit.cursor ≤ d.edit.line.length := by
  rw [edit, text, List.length_append]
  exact Nat.le_add_right _ _

end Draft

/-! ### On the terminal -/

variable {k : State} {screen : Screen} {d : Draft} {e e' : Edit} {keys : List Key}

/-- After keys that do not end the line the terminal is asked for the next one. -/
theorem edit_after? (hscreen : screen.broken = []) (h : e.after? k.earlier keys = some e')
    (strokes : List Stroke) :
    ∃ screen', edit k screen e (keys.map .key ++ strokes) = edit k screen' e' strokes := by
  induction keys generalizing screen e with
  | nil =>
    cases h
    exact ⟨screen, rfl⟩
  | cons key keys ih =>
    rw [Edit.after?] at h
    rw [List.map_cons, List.cons_append, edit, write?_of_broken hscreen]
    dsimp only
    cases hpress : e.press k.earlier key with
    | edited next =>
      rw [hpress] at h
      exact ih (by exact hscreen) h
    | entered | closed =>
      rw [hpress] at h
      cases h

/-- The line that is handed over is the one that is written. -/
theorem edit_write (hscreen : screen.broken = []) (h : d.Holds k.earlier) (keys : List Key) :
    ∃ k', edit k screen d.edit (keys.map .key) = .given k' (d.write keys).1 ∧
      k'.strokes = (d.write keys).2.map .key ∧ k'.screen.broken = [] := by
  induction keys generalizing screen d with
  | nil =>
    rw [List.map_nil, edit, write?_of_broken hscreen]
    exact ⟨_, rfl, rfl, hscreen⟩
  | cons key keys ih =>
    rw [List.map_cons, edit, write?_of_broken hscreen]
    dsimp only
    rw [Draft.press_edit h, Draft.write]
    split_ifs with henter hgives
    · rw [entered]
      dsimp only
      rw [write?_of_broken (by exact hscreen)]
      exact ⟨_, rfl, rfl, hscreen⟩
    · exact ⟨_, rfl, rfl, hscreen⟩
    · exact ih (by exact hscreen) (Draft.holds_press h key)

/-! ### The earlier lines -/

/-- The lines that are remembered: those that are not blank. -/
def remembered (lines : List String) : List (List Char) :=
  (lines.map String.toList).filter (!isBlankLine ·)

theorem remembered_append (lines lines' : List String) :
    remembered (lines ++ lines') = remembered lines ++ remembered lines' := by
  rw [remembered, List.map_append, List.filter_append, remembered, remembered]

theorem earlier_entered (k : State) (screen : Screen) (strokes : List Stroke) (line : List Char) :
    (entered k screen strokes line).console.earlier =
      k.earlier ++ remembered (entered k screen strokes line).line?.toList := by
  rw [entered]
  cases screen.write? newLine with
  | none => exact (List.append_nil _).symm
  | some drawn =>
    simp only [Supply.console, Supply.line?, Option.toList_some, remembered, List.map_singleton,
      String.toList_ofList, List.filter_singleton]
    cases isBlankLine line with
    | true => exact (List.append_nil _).symm
    | false => rfl

theorem earlier_edit (k : State) (screen : Screen) (e : Edit) (strokes : List Stroke) :
    (edit k screen e strokes).console.earlier =
      k.earlier ++ remembered (edit k screen e strokes).line?.toList := by
  have hnone : k.earlier = k.earlier ++ remembered [] := (List.append_nil _).symm
  induction strokes generalizing screen e with
  | nil =>
    rw [edit]
    cases screen.write? (drawing k.row e) <;> exact hnone
  | cons stroke strokes ih =>
    rw [edit]
    cases screen.write? (drawing k.row e) with
    | none => exact hnone
    | some drawn =>
      cases stroke with
      | failure message => exact hnone
      | breaks part => exact ih _ _
      | key key =>
        dsimp only
        cases e.press k.earlier key with
        | edited next => exact ih _ _
        | closed => exact hnone
        | entered => exact earlier_entered k _ _ _

theorem earlier_ask (prompt : String) (k : State) :
    (ask prompt k).console.earlier = k.earlier ++ remembered (ask prompt k).line?.toList := by
  have hnone : k.earlier = k.earlier ++ remembered [] := (List.append_nil _).symm
  rw [ask]
  cases k.screen.write? (prompt.toList ++ newLine) with
  | none => exact hnone
  | some screen =>
    dsimp only
    split_ifs
    · exact hnone
    · exact earlier_edit k _ _ _

/-- **What is remembered** is what was handed over and is not blank, in that order, whatever the
terminal does. -/
theorem earlier_serve (requests : List Request) (k : State) :
    (console.serve requests k).2.earlier =
      k.earlier ++ remembered (console.serve requests k).1 := by
  induction requests generalizing k with
  | nil => exact (List.append_nil _).symm
  | cons request requests ih =>
    cases request with
    | display message => exact ih _
    | ask prompt =>
      rw [Console.serve, remembered_append, ← List.append_assoc]
      exact (ih _).trans (congrArg (· ++ _) (earlier_ask prompt k))

/-! ### Whatever is typed -/

/-- While the terminal works, a line is read as it is written in a draft. -/
theorem ask_write {k : State} (hbroken : k.screen.broken = []) {keys : List Key}
    (hkeys : k.strokes = keys.map .key) (prompt : String) :
    ∃ k', ask prompt k = .given k' ((Draft.start k.earlier).write keys).1 ∧
      k'.strokes = ((Draft.start k.earlier).write keys).2.map .key ∧ k'.screen.broken = [] := by
  rw [ask_eq hbroken, hkeys, ← Draft.edit_start]
  exact edit_write (by exact hbroken) (Draft.holds_start _) keys

theorem Draft.write_isSuffix (d : Draft) (keys : List Key) : (d.write keys).2 <:+ keys := by
  induction keys generalizing d with
  | nil => exact List.suffix_refl _
  | cons key keys ih =>
    rw [Draft.write]
    split_ifs
    · exact List.suffix_cons _ _
    · exact List.suffix_cons _ _
    · exact (ih _).trans (List.suffix_cons _ _)

/-- While the terminal works, serving requests leaves it working and some of the keys. -/
theorem serve_keys {k : State} (hbroken : k.screen.broken = []) {keys : List Key}
    (hkeys : k.strokes = keys.map .key) (requests : List Request) :
    ∃ left, left <:+ keys ∧ (console.serve requests k).2.strokes = left.map .key ∧
      (console.serve requests k).2.screen.broken = [] := by
  induction requests generalizing k keys with
  | nil => exact ⟨keys, List.suffix_refl _, hkeys, hbroken⟩
  | cons request requests ih =>
    cases request with
    | display message => exact ih (broken_write hbroken _) hkeys
    | ask prompt =>
      obtain ⟨k', hask, hstrokes, hbroken'⟩ := ask_write hbroken hkeys prompt
      have hconsole : (ask prompt k).console = k' := by
        rw [hask]
        cases ((Draft.start k.earlier).write keys).1 <;> rfl
      obtain ⟨left, hleft, hserve⟩ := ih hbroken' hstrokes
      refine ⟨left, hleft.trans (Draft.write_isSuffix _ _), ?_⟩
      rw [Console.serve, show console.ask prompt k = ask prompt k from rfl, hconsole]
      exact hserve

/-- **The line editor is a draft.** Whatever has been typed on a terminal that works, and whatever
has been asked of the line editor, it remembers the lines that it has handed over, those that are
not blank, in order. The next line that it is asked for is what a draft makes of the keys to come.
Before each of them, text and cursor are those of the draft, the cursor is not beyond the line, the
recalled line is one of the earlier ones unless it is none, and no key goes outside the line. -/
theorem follows_draft (keys : List Key) (row : Nat) (requests : List Request) :
    let k := (console.serve requests (.start (keys.map .key) row [])).2
    let lines := (console.serve requests (.start (keys.map .key) row [])).1
    k.earlier = (lines.map String.toList).filter (!isBlankLine ·) ∧
    ∃ left, left <:+ keys ∧ k.strokes = left.map .key ∧ ∀ prompt,
      (∃ k', ask prompt k = .given k' ((Draft.start k.earlier).write left).1 ∧
        k'.strokes = ((Draft.start k.earlier).write left).2.map .key) ∧
      ∀ pre rest d, left = pre ++ rest → (Draft.start k.earlier).after? pre = some d →
        ∃ screen e, (Edit.start k.earlier.length).after? k.earlier pre = some e ∧
          ask prompt k = edit k screen e (rest.map .key) ∧
          e.line.take e.cursor = d.before ∧ e.line.drop e.cursor = d.behind ∧
          e.cursor ≤ e.line.length ∧ e.recalled ≤ k.earlier.length ∧
          e.KeepsInside k.earlier := by
  intro k lines
  obtain ⟨left, hleft, hstrokes, hbroken⟩ :=
    serve_keys (k := .start (keys.map .key) row []) rfl rfl requests
  refine ⟨?_, left, hleft, hstrokes, fun prompt => ⟨?_, ?_⟩⟩
  · exact earlier_serve requests _
  · obtain ⟨k', hask, hk', -⟩ := ask_write hbroken hstrokes prompt
    exact ⟨k', hask, hk'⟩
  · intro pre rest d hsplit hd
    have hholds : d.Holds k.earlier := Draft.holds_after? (Draft.holds_start _) hd
    have hafter : (Edit.start k.earlier.length).after? k.earlier pre = some d.edit := by
      rw [← Draft.edit_start, Draft.after?_edit (Draft.holds_start _), hd, Option.map_some]
    have hrecalled : d.edit.recalled ≤ k.earlier.length := Draft.length_above_le hholds
    have hask : ∃ screen, ask prompt k = edit k screen d.edit (rest.map .key) := by
      rw [ask_eq hbroken, show k.strokes = left.map .key from hstrokes, hsplit, List.map_append]
      exact edit_after? (by exact hbroken) hafter _
    obtain ⟨screen, hask⟩ := hask
    exact ⟨screen, d.edit, hafter, hask, d.take_edit, d.drop_edit, d.cursor_edit_le, hrecalled,
      Edit.keepsInside d.cursor_edit_le hrecalled⟩

/-- A line is entered and recalled, and its first character is taken out of the copy. -/
theorem follows_draft_in_copy :
    let keys : List Key := [.char '1', .char '×', .char '\n', .up, .left, .backspace, .char '2',
      .char '\n']
    let k := (console.serve [.ask ">"] (.start (keys.map .key) 1 [])).2
    k.earlier = [['1', '×']] ∧
      (∃ k', ask ">" k = .line "2×" k') ∧
      ∃ e, (Edit.start 1).after? k.earlier [.up, .left, .backspace] = some e ∧
        e.line.take e.cursor = [] ∧ e.line.drop e.cursor = ['×'] ∧ e.KeepsInside k.earlier := by
  intro keys k
  obtain ⟨hearlier, left, -, hstrokes, hleft⟩ := follows_draft keys 1 [.ask ">"]
  have hsplit : left = [.up, .left, .backspace] ++ [.char '2', .char '\n'] := by
    have hmap : left.map Stroke.key = ([.up, .left, .backspace] ++ [.char '2', .char '\n'] :
        List Key).map .key := hstrokes.symm.trans (by decide +kernel)
    exact List.map_injective_iff.2 (fun _ _ h => Stroke.key.inj h) hmap
  have hk : k.earlier = [['1', '×']] := hearlier.trans (by decide +kernel)
  have hafter : (Draft.start k.earlier).after? [.up, .left, .backspace] =
      some ⟨[], ['×'], [], [['1', '×']]⟩ := by
    rw [hk]
    decide
  obtain ⟨⟨k', hask, -⟩, hmoment⟩ := hleft ">"
  obtain ⟨_, e, he, -, hbefore, hbehind, -, -, hinside⟩ := hmoment _ _ _ hsplit hafter
  refine ⟨hk, ⟨k', ?_⟩, e, ?_, hbefore, hbehind, hinside⟩
  · have hwrite : ((Draft.start k.earlier).write left).1 = some ['2', '×'] := by
      rw [hk, hsplit]
      decide
    rw [hask]
    exact congrArg (Supply.given k') hwrite
  · rw [← he, hk]
    rfl

end LineEditor

end Reckoner
