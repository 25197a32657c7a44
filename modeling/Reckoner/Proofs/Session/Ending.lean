import Reckoner.Proofs.Session.Lines
import Reckoner.Proofs.Session.Saving

/-!
# How a session ends

The goodbye ends a session. What has been replied so far tells about the session (`Session.Tells`):
the goodbye is among the replies exactly when the session is finished, nothing is said behind it,
and if the last thing said is that the history could not be saved, then it cannot be saved now. Each
call keeps this (`Session.Tells.call`), because it falls under one of four cases
(`Moment.turn_cases`).

The last point is what makes the end readable in the replies alone (`Session.goodbye_repliesTo`): a
failure to save right before the goodbye is always that of the last attempt. An earlier one,
followed at once by a successful attempt, would look the same; but a history that could not be saved
cannot be saved until its path is changed, and that is replied to.
-/

namespace Reckoner

open Files

namespace Moment

open Session

/-- The call finishes the session. -/
def Ends (m : Moment) : Prop :=
  m.session.isFinished = false ∧ m.turn.session.isFinished = true

/-- The call is the command to quit, taken as a command. -/
def Quits (m : Moment) : Prop :=
  ∃ line, m.call = .submit line ∧ Command.ofLine line = .quit ∧ m.answer? = none

/-- What is said at the end: why the history could not be saved, if so, and the goodbye. -/
def farewell (m : Moment) : List Reply :=
  (m.session.history.save m.tree).error.toList.map (.saveFailed m.session.history.path) ++
    [.goodbye]

/-- The call is answered once, the session goes on, and if the answer is that the history could not
be saved, that is what has just been tried. -/
structure AnsweredOnce (m : Moment) : Prop where
  isFinished : m.turn.session.isFinished = false
  reply : ∃ r, r ≠ .goodbye ∧ m.turn.replies = [r]
  saveFailed : ∀ p e, m.turn.replies = [.saveFailed p e] →
    m.turn.session.history = m.session.history ∧
      m.session.history.save m.tree = ⟨m.turn.tree, some e⟩

variable {m : Moment}

/-! ### One call -/

theorem finish_eq_farewell {s : Session} (hs : s.isFinished = false) (t : Tree) (c : Call) :
    s.finish t = ⟨{ s with phase := .finished }, (s.history.save t).tree,
      farewell ⟨s, t, c⟩⟩ := by
  rw [finish, if_neg (by simp [hs]), farewell]
  cases he : (s.history.save t).error <;> simp [he]

theorem turn_of_command {line : String} {command : Command} (hp : m.session.phase = .ready)
    (hc : m.call = .submit line) (hl : Command.ofLine line = command) :
    m.turn = m.session.execute m.tree command := by
  rw [turn, hc, Session.call, submit_of_ready hp, hl]

/-- A command other than to quit or to change the path is answered once. -/
theorem answeredOnce_of_command {line : String} (hp : m.session.phase = .ready)
    (hc : m.call = .submit line) (hquit : Command.ofLine line ≠ .quit)
    (hchange : Command.ofLine line ≠ .changePath) : m.AnsweredOnce := by
  have hs := isFinished_of_ready hp
  have hturn := turn_of_command hp hc rfl
  cases hl : Command.ofLine line with
  | quit => exact absurd hl hquit
  | changePath => exact absurd hl hchange
  | showHistory =>
    rw [hl, execute] at hturn
    constructor <;> simp [hturn, hs]
  | save =>
    rw [hl, execute, Session.save] at hturn
    rcases hsave : m.session.history.save m.tree with ⟨u, _ | e⟩
    · constructor <;> simp [hturn, hs, hsave, savingReply]
    · constructor <;> simp [hturn, hs, hsave, savingReply]
  | evaluate e detailed =>
    rw [hl, execute, evaluate_eq] at hturn
    cases he : Expression.evaluate e with
    | ok x =>
      rw [he] at hturn
      have hs' : isFinished { m.session with history := m.session.history.record e x } = false := hs
      constructor <;> simp [hturn, hs']
    | error f =>
      rw [he] at hturn
      constructor <;> simp [hturn, hs]

/-- **What a call is answered with.** A finished session says nothing and stays as it is. Finishing
it says whether the history could not be saved, and goodbye. The command to change the path is not
answered. All else is answered once. -/
theorem turn_cases (m : Moment) :
    (m.session.isFinished = true ∧ m.turn = ⟨m.session, m.tree, []⟩) ∨
    (m.session.isFinished = false ∧ (m.call = .finish ∨ m.Quits) ∧
      m.turn = ⟨{ m.session with phase := .finished }, (m.session.history.save m.tree).tree,
        m.farewell⟩) ∨
    (m.session.isFinished = false ∧ m.ChangesPath ∧
      m.turn = ⟨{ m.session with phase := .awaitingPath }, m.tree, []⟩) ∨
    (m.session.isFinished = false ∧ ¬ m.ChangesPath ∧ ¬ m.Quits ∧ m.AnsweredOnce) := by
  obtain ⟨s, t, c⟩ := m
  cases hs : s.isFinished with
  | true =>
    exact Or.inl ⟨rfl, call_of_finished hs t c⟩
  | false =>
    refine Or.inr ?_
    cases c with
    | finish => exact Or.inl ⟨rfl, Or.inl rfl, finish_eq_farewell hs t .finish⟩
    | submit line =>
      cases ha : answer? ⟨s, t, .submit line⟩ with
      | some a =>
        -- the line is a path
        have hturn := turn_of_answer ha
        refine Or.inr (Or.inr ⟨rfl, ?_, ?_, ?_⟩)
        · rintro ⟨-, -, -, hnone⟩
          cases ha.symm.trans hnone
        · rintro ⟨-, -, -, hnone⟩
          cases ha.symm.trans hnone
        · constructor <;> simp [hturn, isFinished]
      | none =>
        have hp : s.phase = .ready := phase_of_command (m := ⟨s, t, .submit line⟩) rfl hs ha
        by_cases hquit : Command.ofLine line = .quit
        · refine Or.inl ⟨rfl, Or.inr ⟨line, rfl, hquit, ha⟩, ?_⟩
          rw [turn_of_command hp rfl hquit]
          exact finish_eq_farewell hs t (.submit line)
        · by_cases hchange : Command.ofLine line = .changePath
          · refine Or.inr (Or.inl ⟨rfl, ⟨line, rfl, hchange, ha⟩, ?_⟩)
            exact turn_of_command hp rfl hchange
          · refine Or.inr (Or.inr ⟨rfl, ?_, ?_, answeredOnce_of_command hp rfl hquit hchange⟩)
            · rintro ⟨line', hline, hl, -⟩
              cases hline
              exact hchange hl
            · rintro ⟨line', hline, hl, -⟩
              cases hline
              exact hquit hl

/-- The goodbye is said by the call that finishes the session. -/
theorem goodbye_mem_iff : .goodbye ∈ m.turn.replies ↔ m.Ends := by
  rw [Ends]
  rcases m.turn_cases with ⟨hs, hturn⟩ | ⟨hs, -, hturn⟩ | ⟨hs, -, hturn⟩ | ⟨hs, -, -, honce⟩
  · simp [hturn, hs]
  · rw [hs, hturn]
    simp [farewell, isFinished]
  · rw [hs, hturn]
    simp [isFinished]
  · obtain ⟨r, hr, hreplies⟩ := honce.reply
    simp [hreplies, honce.isFinished, Ne.symm hr]

/-- The call that finishes the session saves its history, and what is said at the end is about
that. -/
theorem turn_of_ends (h : m.Ends) : m.turn =
    ⟨{ m.session with phase := .finished }, (m.session.history.save m.tree).tree, m.farewell⟩ := by
  obtain ⟨hs, hfinished⟩ := h
  rcases m.turn_cases with ⟨hs', -⟩ | ⟨-, -, hturn⟩ | ⟨-, -, hturn⟩ | ⟨-, -, -, honce⟩
  · cases hs.symm.trans hs'
  · exact hturn
  · rw [hturn] at hfinished
    cases hfinished
  · cases honce.isFinished.symm.trans hfinished

theorem replies_of_ends (h : m.Ends) : m.turn.replies = m.farewell := by
  rw [turn_of_ends h]

theorem farewell_cases (m : Moment) : m.farewell = [.goodbye] ∨
    ∃ e, m.farewell = [.saveFailed m.session.history.path e, .goodbye] := by
  rw [farewell]
  cases (m.session.history.save m.tree).error with
  | none => exact Or.inl rfl
  | some e => exact Or.inr ⟨e, rfl⟩

theorem Quits.not_changesPath (h : m.Quits) : ¬ m.ChangesPath := by
  rintro ⟨line, hline, hchange, -⟩
  obtain ⟨line', hline', hquit, -⟩ := h
  cases hline.symm.trans hline'
  cases hchange.symm.trans hquit

/-- What a line of an unfinished session is answered with. -/
theorem replies_of_submit {line : String} (hm : m.call = .submit line)
    (hs : m.session.isFinished = false) :
    (m.ChangesPath → m.turn.replies = []) ∧
      (m.Quits → m.turn.replies = [.goodbye] ∨
        ∃ e, m.turn.replies = [.saveFailed m.session.history.path e, .goodbye]) ∧
      (¬ m.ChangesPath → ¬ m.Quits → ∃ r, r ≠ .goodbye ∧ m.turn.replies = [r]) := by
  rcases m.turn_cases with ⟨hs', -⟩ | ⟨-, hend, hturn⟩ | ⟨-, hchange, hturn⟩ |
    ⟨-, hchange, hquit, honce⟩
  · cases hs.symm.trans hs'
  · have hquit : m.Quits := hend.resolve_left (by simp [hm])
    rw [hturn]
    exact ⟨fun h => absurd h hquit.not_changesPath, fun _ => m.farewell_cases,
      fun _ h => absurd hquit h⟩
  · rw [hturn]
    exact ⟨fun _ => rfl, fun h => absurd hchange h.not_changesPath, fun h => absurd hchange h⟩
  · exact ⟨fun h => absurd h hchange, fun h => absurd h hquit, fun _ _ => honce.reply⟩

end Moment

namespace Session

/-- No call has finished a session that goes on. -/
theorem not_ends_of_mem_moments {s : Session} {t : Tree} {calls : List Call}
    (h : (s.afterCalls t calls).1.isFinished = false) : ∀ m ∈ s.moments t calls, ¬ m.Ends := by
  induction calls generalizing s t with
  | nil => exact List.forall_mem_nil _
  | cons c calls ih =>
    refine List.forall_mem_cons.2 ⟨?_, ih h⟩
    rintro ⟨-, hfinished⟩
    replace hfinished : (s.call t c).session.isFinished = true := hfinished
    rw [afterCalls, afterCalls_of_finished hfinished] at h
    cases h.symm.trans hfinished

/-! ### What the replies tell -/

/-- All replies to calls, in order. -/
def repliesTo (s : Session) (t : Tree) (calls : List Call) : List Reply :=
  (s.moments t calls).flatMap fun m => m.turn.replies

theorem repliesTo_of_moments {s : Session} {t : Tree} {calls : List Call} {pre post : List Moment}
    {m : Moment} (hsplit : s.moments t calls = pre ++ m :: post) :
    s.repliesTo t calls = (pre.flatMap fun m => m.turn.replies) ++
      (m.turn.replies ++ post.flatMap fun m => m.turn.replies) := by
  rw [repliesTo, hsplit, List.flatMap_append, List.flatMap_cons]

/-- What replies tell about the session and the tree to which they have led. -/
structure Tells (said : List Reply) (s : Session) (t : Tree) : Prop where
  /-- The goodbye has been said exactly when the session is finished. -/
  goodbye_mem_iff : .goodbye ∈ said ↔ s.isFinished = true
  /-- Nothing has been said behind it. -/
  goodbye_not_mem : .goodbye ∉ said.dropLast
  /-- If the last thing said is that the history could not be saved, it cannot be saved now. -/
  saveFailed : ∀ p e, said.getLast? = some (.saveFailed p e) →
    ∃ e', s.history.save t = ⟨t, some e'⟩

namespace Tells

variable {said : List Reply} {s : Session} {t : Tree}

/-- At the beginning nothing has been said. -/
theorem nil (h : History) (cwd : Path) (t : Tree) : Tells [] (Session.new h cwd) t := by
  constructor <;> simp [Session.new, isFinished]

/-- Every call keeps what the replies tell. -/
theorem call (h : Tells said s t) (c : Call) :
    Tells (said ++ (s.call t c).replies) (s.call t c).session (s.call t c).tree := by
  have hturn : s.call t c = (⟨s, t, c⟩ : Moment).turn := rfl
  have hcases := (⟨s, t, c⟩ : Moment).turn_cases
  rw [← hturn] at hcases
  -- nothing is said behind the goodbye, so it has not been said in a session that goes on
  have hmem (hs : s.isFinished = false) : .goodbye ∉ said := by
    rw [h.goodbye_mem_iff, hs]
    exact Bool.false_ne_true
  rcases hcases with ⟨hs, hcall⟩ | ⟨hs, -, hcall⟩ | ⟨hs, -, hcall⟩ | ⟨hs, -, -, honce⟩
  · rw [hcall, List.append_nil]
    exact h
  · rw [hcall, Moment.farewell, ← List.append_assoc]
    constructor
    · simp [isFinished]
    · rw [List.dropLast_concat, List.mem_append, not_or]
      exact ⟨hmem hs, by simp⟩
    · simp
  · rw [hcall, List.append_nil]
    exact ⟨by simpa [isFinished] using hmem hs, h.goodbye_not_mem, h.saveFailed⟩
  · obtain ⟨r, hr, hreplies⟩ := honce.reply
    rw [← hturn] at hreplies
    have hfinished : (s.call t c).session.isFinished = false := honce.isFinished
    rw [hreplies]
    constructor
    · simp [hmem hs, hfinished, Ne.symm hr]
    · rw [List.dropLast_concat]
      exact hmem hs
    · intro p e hlast
      rw [List.getLast?_concat, Option.some.injEq] at hlast
      obtain ⟨hhistory, hsave⟩ := honce.saveFailed p e (by rw [← hlast, ← hreplies, hturn])
      rw [← hturn] at hhistory hsave
      rw [hhistory]
      exact History.exists_save_of_error hsave

/-- So do calls, one after the other. -/
theorem calls (h : Tells said s t) (calls : List Call) :
    Tells (said ++ s.repliesTo t calls) (s.afterCalls t calls).1 (s.afterCalls t calls).2 := by
  induction calls generalizing said s t with
  | nil =>
    rw [repliesTo, moments, List.flatMap_nil, List.append_nil]
    exact h
  | cons c cs ih =>
    have hc := ih (h.call c)
    rw [List.append_assoc] at hc
    exact hc

/-- What has been said before a moment tells about it. -/
theorem moment (h : Tells said s t) {calls : List Call} {pre post : List Moment} {m : Moment}
    (hsplit : s.moments t calls = pre ++ m :: post) :
    Tells (said ++ pre.flatMap fun m => m.turn.replies) m.session m.tree := by
  induction pre generalizing said s t calls with
  | nil =>
    cases calls with
    | nil => cases hsplit
    | cons c cs =>
      obtain ⟨hm, -⟩ := List.cons_eq_cons.1 hsplit
      rw [← hm, List.flatMap_nil, List.append_nil]
      exact h
  | cons p pre ih =>
    cases calls with
    | nil => cases hsplit
    | cons c cs =>
      obtain ⟨hp, hrest⟩ := List.cons_eq_cons.1 hsplit
      have hm := ih (h.call c) hrest
      rw [List.append_assoc] at hm
      rw [← hp]
      exact hm

/-- The goodbye is said once, and last. -/
theorem eq_nil_of_goodbye (h : Tells said s t) {before behind : List Reply}
    (hsaid : said = before ++ .goodbye :: behind) : .goodbye ∉ before ∧ behind = [] := by
  have hlast := h.goodbye_not_mem
  rw [hsaid, List.dropLast_append_of_ne_nil (List.cons_ne_nil _ _), List.mem_append, not_or]
    at hlast
  refine ⟨hlast.1, ?_⟩
  cases behind with
  | nil => rfl
  | cons r rs => exact absurd List.mem_cons_self hlast.2

/-- The replies end in a failure to save and the goodbye exactly when the call that finishes the
session has failed to save. -/
theorem goodbye_of_ends {said : List Reply} {m : Moment} (h : Tells said m.session m.tree)
    (hm : m.Ends) (p : Path) (e : History.SaveError) :
    (∃ before, said ++ m.turn.replies = before ++ [.saveFailed p e, .goodbye]) ↔
      p = m.session.history.path ∧ (m.session.history.save m.tree).error = some e := by
  rw [Moment.replies_of_ends hm, Moment.farewell]
  cases hsave : (m.session.history.save m.tree).error with
  | none =>
    refine iff_of_false ?_ (by simp)
    rintro ⟨before, hbefore⟩
    -- a failure that was replied to before would fail now
    have hsaid : said = before ++ [.saveFailed p e] := by
      refine (List.append_left_inj [.goodbye]).1 ?_
      rw [List.append_assoc]
      exact hbefore
    obtain ⟨e', he'⟩ := h.saveFailed p e (by rw [hsaid, List.getLast?_concat])
    rw [he'] at hsave
    cases hsave
  | some e' =>
    constructor
    · rintro ⟨before, hbefore⟩
      have hlast := (List.append_inj' hbefore rfl).2
      simpa [eq_comm] using hlast
    · rintro ⟨rfl, he⟩
      cases he
      exact ⟨said, rfl⟩

end Tells

/-- A session is finished exactly when a call has finished it. -/
theorem isFinished_afterCalls_iff (h : History) (cwd : Path) (t : Tree) (calls : List Call) :
    ((Session.new h cwd).afterCalls t calls).1.isFinished = true ↔
      ∃ m ∈ (Session.new h cwd).moments t calls, m.Ends := by
  have htells := (Tells.nil h cwd t).calls calls
  rw [List.nil_append] at htells
  rw [← htells.goodbye_mem_iff]
  simp only [repliesTo, List.mem_flatMap, Moment.goodbye_mem_iff]

/-- **The end of a session, as it is replied.** The goodbye is said at most once and nothing behind
it, it is said exactly when a call has finished the session, and a finished session does nothing any
more and has nothing more to say. Right before the goodbye stands a failure to save exactly when the
call that finishes the session has failed to save. Until then each line has one answer, unless it is
the command to change the path, which has none, or the command to quit. -/
theorem goodbye_repliesTo (h : History) (cwd : Path) (t : Tree) (calls : List Call) :
    let s := Session.new h cwd
    let said := s.repliesTo t calls
    let after := s.afterCalls t calls
    (∀ before behind, said = before ++ .goodbye :: behind → .goodbye ∉ before ∧ behind = []) ∧
    (.goodbye ∈ said ↔ after.1.isFinished = true) ∧
    (after.1.isFinished = true ↔ ∃ m ∈ s.moments t calls, m.Ends) ∧
    ¬ (after.1.isFinished = true ∧ after.1.isAwaitingPath = true) ∧
    (after.1.isFinished = true → ∀ c, after.1.call after.2 c = ⟨after.1, after.2, []⟩) ∧
    (∀ m ∈ s.moments t calls, m.Ends → ∀ p e,
      (∃ before, said = before ++ [.saveFailed p e, .goodbye]) ↔
        p = m.session.history.path ∧ (m.session.history.save m.tree).error = some e) ∧
    (∀ m ∈ s.moments t calls, ∀ line, m.call = .submit line → m.session.isFinished = false →
      (m.ChangesPath → m.turn.replies = []) ∧
      (m.Quits → m.turn.replies = [.goodbye] ∨
        ∃ e, m.turn.replies = [.saveFailed m.session.history.path e, .goodbye]) ∧
      (¬ m.ChangesPath → ¬ m.Quits → ∃ r, r ≠ .goodbye ∧ m.turn.replies = [r])) := by
  intro s said after
  have hstart : Tells [] s t := .nil h cwd t
  have htells : Tells said after.1 after.2 := hstart.calls calls
  refine ⟨fun before behind => htells.eq_nil_of_goodbye, htells.goodbye_mem_iff,
    isFinished_afterCalls_iff h cwd t calls, ?_, ?_, ?_, ?_⟩
  · rw [isFinished_iff, isAwaitingPath_iff]
    rintro ⟨hfinished, hawaiting⟩
    cases hfinished.symm.trans hawaiting
  · intro hfinished c
    rcases (⟨after.1, after.2, c⟩ : Moment).turn_cases with
      ⟨-, hturn⟩ | ⟨hs, -⟩ | ⟨hs, -⟩ | ⟨hs, -⟩
    · exact hturn
    all_goals cases hfinished.symm.trans hs
  · intro m hm hends p e
    obtain ⟨pre, post, hsplit⟩ := List.append_of_mem hm
    have hmoment := hstart.moment hsplit
    rw [List.nil_append] at hmoment
    -- nothing is said behind the call that finishes the session
    have hsaid : said = (pre.flatMap fun m => m.turn.replies) ++ m.turn.replies := by
      have hall := repliesTo_of_moments hsplit
      have hbehind := hall
      rw [Moment.replies_of_ends hends, Moment.farewell, List.append_assoc, ← List.append_assoc,
        List.singleton_append] at hbehind
      have hnil := (htells.eq_nil_of_goodbye hbehind).2
      rw [hnil, List.append_nil] at hall
      exact hall
    rw [hsaid]
    exact hmoment.goodbye_of_ends hends p e
  · intro m _ line hline hs
    exact Moment.replies_of_submit hline hs

end Session

end Reckoner
