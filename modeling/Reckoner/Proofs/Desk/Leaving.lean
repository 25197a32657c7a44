import Reckoner.Desk.Watch
import Reckoner.Proofs.Desk.Redrawing
import Reckoner.Proofs.Desk.Turns
import Reckoner.Proofs.Desk.Typing
import Reckoner.Proofs.Session.Ending

/-!
# How the desk is left

A run of the desk takes rounds: the desk is drawn, and the signal is heeded. It ends well only if
the desk is to be left, and that is so exactly when its session is finished. As a round makes at
most one call, the call that finishes the session is the last one, and its entry is the last of the
transcript. So nothing comes between the goodbye and the end of the run, and what remains to be said
is what the session has said to that call (`leaving_with_goodbye`).

Quitting with a key is the same as quitting with the command, except that no time is taken
(`press_quit_eq`).
-/

namespace Reckoner

open Files

/-- The command to quit does what finishing does, unless a path is asked for. -/
theorem Session.submit_quit {s : Session} (hs : s.isAwaitingPath = false) (t : Tree) :
    s.submit t "q" = s.finish t := by
  cases hp : s.phase with
  | awaitingPath => cases hs.symm.trans (isAwaitingPath_iff.2 hp)
  | finished => rw [submit_of_finished hp, finish, if_pos (isFinished_iff.2 hp)]
  | ready =>
    have hquit : Command.ofLine "q" = .quit := by decide
    rw [submit_of_ready hp, hquit, execute]

namespace Desk

variable {d : Desk} {s : Session} {t : Tree} {last : Size} {drawn : List Picture} {r : Round}
  {rounds : List Round}

/-! ### Rounds -/

/-- What is done at the desk in a round. -/
def Round.actions (r : Round) : List Action :=
  .draw r.size :: match r.signal with
    | .pressed key held => [.press key held r.elapsed]
    | .wheel w => [.wheel w]
    | .idle | .failure _ => []

theorem acts_actions (d : Desk) (r : Round) :
    d.acts r.actions = (d.prepare r.size).heed r.elapsed r.signal := by
  rw [Round.actions]
  cases r.signal <;> rfl

/-- A round makes at most one call. -/
theorem calls_actions (d : Desk) (r : Round) :
    (d.calls r.actions = [] ∧ (d.acts r.actions).session = d.session) ∨
      ∃ c, d.calls r.actions = [c] := by
  have hdraw : (d.prepare r.size).session = d.session := (quiet_prepare d r.size).session
  have hone (a : Action) : (d.calls [.draw r.size, a] = [] ∧
      (d.acts [.draw r.size, a]).session = d.session) ∨
        ∃ c, d.calls [.draw r.size, a] = [c] := by
    have hcalls : d.calls [.draw r.size, a] = ((d.prepare r.size).call? a).toList := by
      rw [calls, calls, calls, List.append_nil]
      rfl
    rw [hcalls]
    rcases (d.prepare r.size).act_cases a with ⟨hcall, hquiet⟩ | ⟨c, hcall, -⟩
    · exact .inl ⟨by rw [hcall]; rfl, hquiet.session.trans hdraw⟩
    · exact .inr ⟨c, by rw [hcall]; rfl⟩
  rw [Round.actions]
  cases r.signal with
  | pressed key held => exact hone (.press key held r.elapsed)
  | wheel w => exact hone (.wheel w)
  | idle | failure => exact .inl ⟨rfl, hdraw⟩

/-! ### Runs -/

/-- While the desk is not to be left, a signal that is no failure is heeded, and the run goes on. -/
theorem watchFrom_cons (hleaving : d.leaving = false)
    (hsignal : ∀ message, r.signal ≠ .failure message) :
    watchFrom last drawn d (r :: rounds) =
      watchFrom last ((d.draw r.size).2 :: drawn) (d.acts r.actions) rounds := by
  have hgoing : ¬ (d.prepare r.size).leaving = true := by
    rw [leaving_prepare, hleaving]
    exact Bool.false_ne_true
  rw [watchFrom, if_neg hgoing, acts_actions]
  cases hr : r.signal with
  | failure message => exact absurd hr (hsignal message)
  | pressed | wheel | idle => rfl

/-- A run that ends well has taken rounds until the desk was to be left, and has then only drawn it
once more. -/
structure Took (d : Desk) (rounds taken : List Round) (e : Ending) : Prop where
  /-- The rounds behind those taken are left. -/
  rounds : rounds = taken ++ e.left
  desk : ∃ size, e.desk = (d.acts (taken.flatMap Round.actions)).prepare size
  leaving : (d.acts (taken.flatMap Round.actions)).leaving = true
  /-- The desk was not to be left before one of them was taken. -/
  going : ∀ front r behind, taken = front ++ r :: behind →
    (d.acts (front.flatMap Round.actions)).leaving = false

theorem exists_took (hok : (watchFrom last drawn d rounds).breakdown = none) :
    ∃ taken, d.Took rounds taken (watchFrom last drawn d rounds) := by
  induction rounds generalizing d drawn with
  | nil =>
    rw [watchFrom] at hok ⊢
    split_ifs at hok ⊢ with hleaving
    rw [leaving_prepare] at hleaving
    exact ⟨[], rfl, ⟨last, rfl⟩, hleaving, fun front r behind h => by simp at h⟩
  | cons r rounds ih =>
    by_cases hleaving : d.leaving = true
    · have hleft : (d.prepare r.size).leaving = true := (leaving_prepare d r.size).trans hleaving
      rw [watchFrom, if_pos hleft]
      exact ⟨[], rfl, ⟨r.size, rfl⟩, hleaving, fun front r behind h => by simp at h⟩
    · rw [Bool.not_eq_true] at hleaving
      have hsignal (message : String) : r.signal ≠ .failure message := by
        intro hr
        rw [watchFrom, leaving_prepare, hleaving, if_neg Bool.false_ne_true, hr] at hok
        cases hok
      rw [watchFrom_cons hleaving hsignal] at hok ⊢
      obtain ⟨taken, hrounds, ⟨size, hdesk⟩, hleft, hgoing⟩ := ih hok
      refine ⟨r :: taken, by rw [List.cons_append, ← hrounds], ⟨size, ?_⟩, ?_, ?_⟩
      · rw [List.flatMap_cons, acts_append, hdesk]
      · rw [List.flatMap_cons, acts_append, hleft]
      · intro front r' behind h
        cases front with
        | nil => exact hleaving
        | cons r'' front =>
          obtain ⟨rfl, htaken⟩ := List.cons_eq_cons.1 h
          rw [List.flatMap_cons, acts_append]
          exact hgoing front r' behind htaken

/-! ### The goodbye -/

/-- How a run is left that was begun with a session on a tree: the rounds that were taken, and the
moments of the calls that they made, up to the one that the goodbye was said to. -/
structure Departed (s : Session) (t : Tree) (rounds : List Round) (e : Ending)
    (taken : List Round) (before : List Moment) (m : Moment) : Prop where
  /-- The rounds behind those taken are left. -/
  rounds : rounds = taken ++ e.left
  /-- The session goes on before each round that is taken. -/
  going : ∀ front r behind, taken = front ++ r :: behind →
    ((Desk.new s t).acts (front.flatMap Round.actions)).session.isFinished = false
  desk : ∃ size, e.desk = ((Desk.new s t).acts (taken.flatMap Round.actions)).prepare size
  isFinished : e.desk.session.isFinished = true
  moments : s.moments t ((Desk.new s t).calls (taken.flatMap Round.actions)) = before ++ [m]
  /-- No call but the last one finishes the session. -/
  not_ends : ∀ m' ∈ before, ¬ m'.Ends
  ends : m.Ends
  /-- The files are as the attempt to save has left them. -/
  tree : e.desk.tree = (m.session.history.save m.tree).tree
  /-- The last entry has the goodbye. -/
  last : ∃ entry, e.desk.transcript.getLast? = some entry ∧ entry.line = m.call.line ∧
    entry.replies = m.farewell
  farewell : e.desk.farewell = m.farewell.map Reply.text

/-- In the round that finishes the session, the last call is made. -/
theorem exists_moment_of_round {actions : List Action}
    (hgoing : ((Desk.new s t).acts actions).session.isFinished = false)
    (hleft : ((Desk.new s t).acts (actions ++ r.actions)).session.isFinished = true) :
    ∃ before m, s.moments t ((Desk.new s t).calls (actions ++ r.actions)) = before ++ [m] ∧
      (∀ m' ∈ before, ¬ m'.Ends) ∧ m.Ends ∧
      m.turn.tree = ((Desk.new s t).acts (actions ++ r.actions)).tree := by
  set d := (Desk.new s t).acts actions with hd
  rw [acts_append, ← hd] at hleft ⊢
  have hbefore : s.afterCalls t ((Desk.new s t).calls actions) = (d.session, d.tree) :=
    afterCalls_calls (Desk.new s t) actions
  rcases d.calls_actions r with ⟨-, hsession⟩ | ⟨c, hcall⟩
  · rw [hsession, hgoing] at hleft
    cases hleft
  · have hafter := afterCalls_calls d r.actions
    rw [hcall] at hafter
    obtain ⟨hsession, htree⟩ := Prod.mk.inj hafter
    refine ⟨s.moments t ((Desk.new s t).calls actions), ⟨d.session, d.tree, c⟩, ?_, ?_,
      ⟨hgoing, ?_⟩, htree⟩
    · rw [calls_append, ← hd, hcall, Session.moments_append, hbefore]
      rfl
    · exact Session.not_ends_of_mem_moments (by rw [hbefore]; exact hgoing)
    · rw [← hsession] at hleft
      exact hleft

/-- The last entry is that of the last call. -/
theorem exists_getLast?_of_moments {actions : List Action} {before : List Moment} {m : Moment}
    (h : s.moments t ((Desk.new s t).calls actions) = before ++ [m]) :
    ∃ entry, ((Desk.new s t).acts actions).transcript.getLast? = some entry ∧
      entry.line = m.call.line ∧ entry.replies = m.turn.replies := by
  have hsaid := (map_acts (Desk.new s t) actions).trans (congrArg (List.map Moment.said) h)
  replace hsaid := congrArg List.getLast? hsaid
  rw [List.getLast?_map, List.map_append, List.map_singleton, List.getLast?_concat,
    Option.map_eq_some_iff] at hsaid
  obtain ⟨entry, hentry, hsaid⟩ := hsaid
  exact ⟨entry, hentry, Prod.mk.inj hsaid⟩

/-- A run that ends well is left with a goodbye. -/
theorem exists_departed (hs : s.isFinished = false)
    (hok : (watchFrom last drawn (Desk.new s t) rounds).breakdown = none) :
    ∃ taken before m,
      Departed s t rounds (watchFrom last drawn (Desk.new s t) rounds) taken before m := by
  obtain ⟨taken, hrounds, ⟨size, hdesk⟩, hleft, hgoing⟩ := exists_took hok
  have hsound (actions : List Action) : ((Desk.new s t).acts actions).leaving =
      ((Desk.new s t).acts actions).session.isFinished :=
    ((Sound.new hs t).acts actions).leaving
  -- the session goes on at first, so a round has been taken
  obtain rfl | ⟨front, r, rfl⟩ := List.eq_nil_or_concat' taken
  · cases hleft
  rw [List.flatMap_append, List.flatMap_singleton] at hdesk hleft
  have hfront := hgoing front r [] rfl
  rw [hsound] at hleft hfront
  obtain ⟨before, m, hmoments, hbefore, hends, htree⟩ := exists_moment_of_round hfront hleft
  have hquiet := quiet_prepare ((Desk.new s t).acts (front.flatMap Round.actions ++ r.actions)) size
  rw [← hdesk] at hquiet
  obtain ⟨entry, hentry, hline, hreplies⟩ := exists_getLast?_of_moments hmoments
  rw [← hquiet.transcript] at hentry
  rw [Moment.replies_of_ends hends] at hreplies
  refine ⟨front ++ [r], before, m, hrounds, fun front r behind h => ?_, ⟨size, ?_⟩, ?_, ?_, hbefore,
    hends, ?_, ⟨entry, hentry, hline, hreplies⟩, ?_⟩
  · rw [← hsound]
    exact hgoing front r behind h
  · rw [hdesk, List.flatMap_append, List.flatMap_singleton]
  · rw [hquiet.session, hleft]
  · rw [List.flatMap_append, List.flatMap_singleton, hmoments]
  · rw [hquiet.tree, ← htree, Moment.turn_of_ends hends]
  · rw [farewell, hentry, ← hreplies]

/-! ### Quitting with a key -/

/-- The entry of a session that is ended with a key. -/
def quitEntry (d : Desk) (elapsed : Nat) : Entry :=
  ⟨['q'], (d.session.finish d.tree).replies, elapsed, false⟩

/-- The command to quit does the same as the key, but it takes its time. -/
theorem submit_quit_eq (hinput : d.input = ['q']) (hs : d.session.isAwaitingPath = false)
    (elapsed : Nat) : d.submit elapsed =
      { d.quit with transcript := d.transcript ++ [d.quitEntry elapsed] } := by
  have htrim : Text.trim d.input = ['q'] := by
    rw [hinput]
    decide
  have hline : String.ofList ['q'] = "q" := by decide
  have hleaving : (d.session.finish d.tree).session.isFinished = true := by
    rw [Session.finish_session]
    rfl
  rw [submit]
  simp only [htrim, hline, hs, Session.submit_quit hs]
  rw [hleaving]
  rfl

/-- **Quitting with a key.** While the help is hidden and no path is asked for, the keys that quit
leave the same desk as clearing the line and entering the command to quit, with the same session and
files. Only the time in the entry may be different. -/
theorem press_quit_eq (hhelp : d.helpShown = false) (hs : d.session.isAwaitingPath = false)
    {c : Char} (hc : c = 'c' ∨ c = 'd') {held : Modifiers} (hheld : held.ctrl = true)
    (elapsed elapsed' : Nat) :
    let typed := d.pressAll elapsed [(.char 'u', .control), (.char 'q', .none), (.enter, .none)]
    ∃ e, d.press (.char c) held elapsed' = { typed with transcript := d.transcript ++ [e] } ∧
      typed.transcript = d.transcript ++ [{ e with elapsed }] := by
  intro typed
  have hpress : d.press (.char c) held elapsed' = d.quit := by
    rw [press_of_helpShown hhelp, pressOutsideHelp, pressChar, if_pos]
    obtain rfl | rfl := hc <;> rw [hheld] <;> rfl
  have htyped : typed = { d.quit with transcript := d.transcript ++ [d.quitEntry elapsed] } := by
    have hclear : d.press (.char 'u') .control elapsed = d.clearInput := press_of_helpShown hhelp ..
    have hchar : d.clearInput.press (.char 'q') .none elapsed = d.clearInput.insertChar 'q' :=
      press_of_helpShown (by exact hhelp) ..
    have henter : (d.clearInput.insertChar 'q').press .enter .none elapsed =
        (d.clearInput.insertChar 'q').submit elapsed := press_of_helpShown (by exact hhelp) ..
    calc typed = (d.clearInput.insertChar 'q').submit elapsed := by
          rw [← henter, ← hchar, ← hclear]
          rfl
      _ = { d.quit with transcript := d.transcript ++ [d.quitEntry elapsed] } :=
          submit_quit_eq (d := d.clearInput.insertChar 'q') rfl hs elapsed
  exact ⟨d.quitEntry 0, by rw [hpress, htyped]; rfl, by rw [htyped]; rfl⟩

/-! ### Every run -/

/-- What is neither a key press nor of the mouse does not count. -/
theorem Event.signal_eq_idle {event : Event} (hkey : ∀ k held, event ≠ .key k held .press)
    (hmouse : ∀ w, event ≠ .mouse w) : event.signal = .idle := by
  cases event with
  | key k held motion =>
    cases motion with
    | press => exact absurd rfl (hkey k held)
    | hold | release => rfl
  | mouse w => exact absurd rfl (hmouse w)
  | resize | paste | focus => rfl

/-- **How the desk is left.** A run that was begun with a session that goes on and ends well has
taken rounds up to the one that finished the session, and no more. In that round the last call was
made, and it alone attempted to save the history at the end. The last entry has what was said to it:
the goodbye, and before it why the history could not be saved, if so. This remains to be said. What
is neither a key press nor of the mouse only has the desk drawn. And while the help is hidden and no
path is asked for, the keys that quit do what clearing the line and entering the command to quit
does, except that no time is taken. -/
theorem leaving_with_goodbye {s : Session} (hs : s.isFinished = false) (t : Tree) :
    (∀ last rounds, (watchFrom last [] (Desk.new s t) rounds).breakdown = none →
      ∃ taken before m,
        Departed s t rounds (watchFrom last [] (Desk.new s t) rounds) taken before m ∧
        (m.farewell = [.goodbye] ∨
          ∃ e, m.farewell = [.saveFailed m.session.history.path e, .goodbye])) ∧
    ((∀ event : Event, (∀ k held, event ≠ .key k held .press) → (∀ w, event ≠ .mouse w) →
        event.signal = .idle) ∧
      ∀ d last drawn size elapsed rounds, d.leaving = false →
        watchFrom last drawn d (⟨size, elapsed, .idle⟩ :: rounds) =
          watchFrom last ((d.draw size).2 :: drawn) (d.draw size).1 rounds) ∧
    ∀ d : Desk, d.helpShown = false → d.session.isAwaitingPath = false →
      ∀ (c : Char) (held : Modifiers), c = 'c' ∨ c = 'd' → held.ctrl = true →
        ∀ elapsed elapsed',
          let typed :=
            d.pressAll elapsed [(.char 'u', .control), (.char 'q', .none), (.enter, .none)]
          ∃ e, d.press (.char c) held elapsed' =
              { typed with transcript := d.transcript ++ [e] } ∧
            typed.transcript = d.transcript ++ [{ e with elapsed }] := by
  refine ⟨fun last rounds hok => ?_, ⟨fun event => Event.signal_eq_idle, ?_⟩, ?_⟩
  · obtain ⟨taken, before, m, h⟩ := exists_departed hs hok
    exact ⟨taken, before, m, h, m.farewell_cases⟩
  · intro d last drawn size elapsed rounds hleaving
    exact watchFrom_cons hleaving nofun
  · intro d hhelp hawaiting c held hc hheld elapsed elapsed'
    exact press_quit_eq hhelp hawaiting hc hheld elapsed elapsed'

/-- The key that quits does nothing while the help is shown, and nothing when it is released. Then
it ends the run, though the history cannot be saved, and the key behind it is not read. -/
theorem leaving_with_goodbye_not_saved :
    let s := Session.new ⟨[], ⟨""⟩⟩ ⟨"/"⟩
    let events : List Event := [.key (.function 1) .none .press, .key (.char 'c') .control .press,
      .key .escape .none .press, .key (.char 'c') .control .release, .resize ⟨80, 24⟩,
      .key (.char 'c') .control .press, .key (.char '1') .none .press]
    let rounds := events.map fun event => ⟨Size.minimum, 0, event.signal⟩
    let e := watchFrom Size.minimum [] (Desk.new s (.empty [])) rounds
    (s.isFinished = false ∧ e.breakdown = none ∧ e.left.length = 1 ∧ e.desk.farewell =
      ["Error saving history to : opening  for writing: No such file or directory (os error 2)",
        "Exiting calculator."]) ∧
      ∃ taken before m, Departed s (.empty []) rounds e taken before m := by
  intro s events rounds e
  have hs : s.isFinished = false := rfl
  have hok : e.breakdown = none := by decide +kernel
  obtain ⟨hrun, -, -⟩ := leaving_with_goodbye hs (.empty [])
  obtain ⟨taken, before, m, h, -⟩ := hrun Size.minimum rounds hok
  exact ⟨⟨hs, hok, by decide +kernel, by decide +kernel⟩, taken, before, m, h⟩

end Desk

end Reckoner
