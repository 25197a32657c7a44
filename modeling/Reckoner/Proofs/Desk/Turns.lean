import Reckoner.Proofs.Desk.Scrolling

/-!
# What a desk asks of its session

Of all that can be done at a desk only two things go to the session: a line is submitted, or the
session is asked to finish. So an action makes at most one call (`Desk.call?`). If it makes none, it
keeps the session, the files and the transcript (`Quiet`); if it makes one, the call is entered into
the transcript with the replies to it (`Turned`). There is nothing else (`act_cases`).

So the transcript of a desk is a record of calls, and with the calls alone one knows the session and
the files (`afterCalls_calls`) and what the transcript says (`map_acts`).
-/

namespace Reckoner

open Files Text

/-- The line that stands for a call in a transcript. -/
def Call.line : Call → List Char
  | .submit line => line.toList
  | .finish => ['q']

/-- What an entry says, whenever and however it came about. -/
def Entry.said (e : Entry) : List Char × List Reply := (e.line, e.replies)

/-- What the entry of a call says. -/
def Moment.said (m : Moment) : List Char × List Reply := (m.call.line, m.turn.replies)

namespace Desk

variable {d d' : Desk} {a : Action} {c : Call}

/-! ### One action -/

/-- The call that a key makes while the help is hidden, if it makes one. -/
def keyCall? (d : Desk) (held : Modifiers) : Key → Option Call
  | .enter =>
    if trim d.input = [] && !d.session.isAwaitingPath then none
    else some (.submit (String.ofList (trim d.input)))
  | .char c => if held.ctrl && (c == 'c' || c == 'd') then some .finish else none
  | _ => none

/-- The call that an action makes, if it makes one. -/
def call? (d : Desk) : Action → Option Call
  | .press key held _ => if d.helpShown then none else d.keyCall? held key
  | _ => none

/-- What stays of a desk when nothing is asked of its session. Another entry may be selected, but
then the end of the transcript is not to be shown any more. -/
structure Quiet (d d' : Desk) : Prop where
  session : d'.session = d.session
  tree : d'.tree = d.tree
  transcript : d'.transcript = d.transcript
  leaving : d'.leaving = d.leaving
  /-- The selected entry is still one of the transcript. -/
  selected : d.selected ≤ d.transcript.length - 1 → d'.selected ≤ d.transcript.length - 1
  /-- The end is shown only if that was wanted before. -/
  toBottom : d'.toBottom = true → d.toBottom = true ∧ d'.selected = d.selected

/-- What becomes of a desk when a call is made of its session: an entry is added and selected, and
the end of the transcript is to be shown. -/
structure Turned (d : Desk) (c : Call) (d' : Desk) : Prop where
  session : d'.session = (d.session.call d.tree c).session
  tree : d'.tree = (d.session.call d.tree c).tree
  /-- The entry has the call and the replies. -/
  transcript : ∃ elapsed isPath, d'.transcript =
    d.transcript ++ [⟨c.line, (d.session.call d.tree c).replies, elapsed, isPath⟩]
  /-- The desk is left when the session is finished. -/
  leaving : d'.leaving = d'.session.isFinished
  selected : d'.selected = d.transcript.length
  toBottom : d'.toBottom = true

theorem Quiet.of_eq (hsession : d'.session = d.session) (htree : d'.tree = d.tree)
    (htranscript : d'.transcript = d.transcript) (hleaving : d'.leaving = d.leaving)
    (hselected : d'.selected = d.selected) (hbottom : d'.toBottom = d.toBottom) : Quiet d d' where
  session := hsession
  tree := htree
  transcript := htranscript
  leaving := hleaving
  selected h := hselected.trans_le h
  toBottom h := ⟨hbottom.symm.trans h, hselected⟩

theorem quiet_select {n : Nat}
    (hn : d.selected ≤ d.transcript.length - 1 → n ≤ d.transcript.length - 1) :
    Quiet d ({ d with selected := n } : Desk).recallSelected :=
  ⟨rfl, rfl, rfl, rfl, hn, fun h => absurd h Bool.false_ne_true⟩

theorem quiet_wheel (d : Desk) (w : Wheel) : Quiet d (d.wheel w) := by
  rw [wheel]
  split_ifs <;> exact .of_eq rfl rfl rfl rfl rfl rfl

theorem quiet_placeTranscript (d : Desk) (list : Screen.Area) :
    Quiet d (d.placeTranscript list) := by
  by_cases hempty : d.transcript = []
  · rw [placeTranscript, if_pos hempty]
    exact .of_eq rfl rfl rfl rfl rfl rfl
  · rw [placeTranscript, if_neg hempty]
    exact ⟨rfl, rfl, rfl, rfl, id, fun h => absurd h Bool.false_ne_true⟩

theorem quiet_prepareMain (d : Desk) (size : Size) : Quiet d (d.prepareMain size) := by
  rw [prepareMain]
  split_ifs
  · exact .of_eq rfl rfl rfl rfl rfl rfl
  · obtain ⟨hsession, htree, htranscript, hleaving, hselected, hbottom⟩ := quiet_placeTranscript
      (({ d with tooSmall := false } : Desk).adjustScroll size.visibleInput)
      size.transcriptArea.inner
    exact ⟨hsession, htree, htranscript, hleaving, hselected, hbottom⟩

theorem quiet_prepare (d : Desk) (size : Size) : Quiet d (d.prepare size) := by
  rw [prepare]
  split_ifs
  · exact .of_eq rfl rfl rfl rfl rfl rfl
  · exact quiet_prepareMain d size

theorem turned_submit (hcall : d.keyCall? held .enter = some c) (elapsed : Nat) :
    Turned d c (d.submit elapsed) := by
  rw [keyCall?] at hcall
  rw [submit]
  split_ifs at hcall ⊢ with hblank
  cases hcall
  refine ⟨rfl, rfl, ⟨elapsed, d.session.isAwaitingPath, ?_⟩, rfl, rfl, rfl⟩
  rw [Call.line, String.toList_ofList]
  rfl

theorem turned_quit (d : Desk) : Turned d .finish d.quit where
  session := rfl
  tree := rfl
  transcript := ⟨0, false, rfl⟩
  leaving := by
    show true = (d.session.finish d.tree).session.isFinished
    rw [Session.finish_session]
    rfl
  selected := rfl
  toBottom := rfl

/-- What a key does while the help is hidden. -/
theorem pressOutsideHelp_cases (d : Desk) (held : Modifiers) (elapsed : Nat) (key : Key) :
    (d.keyCall? held key = none ∧ Quiet d (d.pressOutsideHelp held elapsed key)) ∨
      ∃ c, d.keyCall? held key = some c ∧ Turned d c (d.pressOutsideHelp held elapsed key) := by
  cases key with
  | char c =>
    rw [keyCall?, pressOutsideHelp, pressChar]
    split_ifs
    · exact .inr ⟨.finish, rfl, turned_quit d⟩
    all_goals exact .inl ⟨rfl, .of_eq rfl rfl rfl rfl rfl rfl⟩
  | enter =>
    rw [pressOutsideHelp]
    cases hcall : d.keyCall? held .enter with
    | some c => exact .inr ⟨c, rfl, turned_submit hcall elapsed⟩
    | none =>
      refine .inl ⟨rfl, ?_⟩
      rw [keyCall?] at hcall
      rw [submit]
      split_ifs at hcall ⊢
      exact .of_eq rfl rfl rfl rfl rfl rfl
  | backspace =>
    refine .inl ⟨rfl, ?_⟩
    rw [pressOutsideHelp, deleteBeforeCursor]
    split_ifs <;> exact .of_eq rfl rfl rfl rfl rfl rfl
  | left | right =>
    refine .inl ⟨rfl, ?_⟩
    rw [pressOutsideHelp]
    split_ifs <;> exact .of_eq rfl rfl rfl rfl rfl rfl
  | up => exact .inl ⟨rfl, quiet_select fun h => (Nat.sub_le _ _).trans h⟩
  | down =>
    refine .inl ⟨rfl, quiet_select fun h => ?_⟩
    split_ifs <;> omega
  | pageUp => exact .inl ⟨rfl, quiet_select fun h => (Nat.sub_le _ _).trans h⟩
  | pageDown => exact .inl ⟨rfl, quiet_select fun _ => Nat.min_le_right _ _⟩
  | function n =>
    refine .inl ⟨rfl, ?_⟩
    rw [pressOutsideHelp]
    split_ifs <;> exact .of_eq rfl rfl rfl rfl rfl rfl
  | delete | home | endOfLine | escape | other =>
    exact .inl ⟨rfl, .of_eq rfl rfl rfl rfl rfl rfl⟩

/-- **What an action does.** Either it makes no call and is quiet, or it makes one call, which is
entered into the transcript. -/
theorem act_cases (d : Desk) (a : Action) : (d.call? a = none ∧ Quiet d (d.act a)) ∨
    ∃ c, d.call? a = some c ∧ Turned d c (d.act a) := by
  cases a with
  | press key held elapsed =>
    rw [call?, act]
    split_ifs with hhelp
    · obtain ⟨shown, scroll, hpress⟩ := press_of_help hhelp key held elapsed
      rw [hpress]
      exact .inl ⟨rfl, .of_eq rfl rfl rfl rfl rfl rfl⟩
    · rw [press, if_neg hhelp]
      exact pressOutsideHelp_cases d held elapsed key
  | wheel w => exact .inl ⟨rfl, quiet_wheel d w⟩
  | draw size => exact .inl ⟨rfl, quiet_prepare d size⟩
  | drawMain size => exact .inl ⟨rfl, quiet_prepareMain d size⟩
  | adjustScroll visible => exact .inl ⟨rfl, .of_eq rfl rfl rfl rfl rfl rfl⟩
  | moveCursor direction =>
    refine .inl ⟨rfl, ?_⟩
    rw [act, moveCursor]
    split_ifs <;> exact .of_eq rfl rfl rfl rfl rfl rfl

/-! ### Many actions -/

/-- The calls that actions make, one after the other. -/
def calls (d : Desk) : List Action → List Call
  | [] => []
  | a :: actions => (d.call? a).toList ++ (d.act a).calls actions

theorem calls_append (d : Desk) (actions more : List Action) :
    d.calls (actions ++ more) = d.calls actions ++ (d.acts actions).calls more := by
  induction actions generalizing d with
  | nil => rfl
  | cons a actions ih =>
    rw [List.cons_append, calls, calls, ih, List.append_assoc]
    rfl

theorem acts_append (d : Desk) (actions more : List Action) :
    d.acts (actions ++ more) = (d.acts actions).acts more := List.foldl_append

/-- The session and the files are as the calls have left them. -/
theorem afterCalls_calls (d : Desk) (actions : List Action) :
    d.session.afterCalls d.tree (d.calls actions) =
      ((d.acts actions).session, (d.acts actions).tree) := by
  induction actions generalizing d with
  | nil => rfl
  | cons a actions ih =>
    have hact : d.acts (a :: actions) = (d.act a).acts actions := rfl
    rw [hact, ← ih, calls, Session.afterCalls_append]
    rcases d.act_cases a with ⟨hcall, hquiet⟩ | ⟨c, hcall, hturned⟩
    · rw [hcall, hquiet.session, hquiet.tree]
      rfl
    · rw [hcall, hturned.session, hturned.tree]
      rfl

/-- Each call has left its entry, and nothing else has. -/
theorem map_acts (d : Desk) (actions : List Action) :
    (d.acts actions).transcript.map Entry.said = d.transcript.map Entry.said ++
      (d.session.moments d.tree (d.calls actions)).map Moment.said := by
  induction actions generalizing d with
  | nil => exact (List.append_nil _).symm
  | cons a actions ih =>
    have hact : d.acts (a :: actions) = (d.act a).acts actions := rfl
    rw [hact, ih, calls, Session.moments_append, List.map_append, ← List.append_assoc]
    rcases d.act_cases a with ⟨hcall, hquiet⟩ | ⟨c, hcall, hturned⟩
    · rw [hcall, hquiet.session, hquiet.tree, hquiet.transcript, Option.toList_none,
        Session.moments, List.map_nil, List.append_nil, Session.afterCalls]
    · obtain ⟨elapsed, isPath, htranscript⟩ := hturned.transcript
      rw [hcall, hturned.session, hturned.tree, htranscript, List.map_append]
      rfl

end Desk

end Reckoner
