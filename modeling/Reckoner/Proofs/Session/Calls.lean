import Mathlib.Data.List.Basic
import Mathlib.Tactic.SplitIfs
import Reckoner.Proofs.Expression.Hom
import Reckoner.Session.Basic

/-!
# Sequences of calls to a session

A session is used through two calls: a line is submitted, or the session is asked to finish. A
sequence of calls passes through *moments*, each a call together with the session and the tree to
which it is made.

One equation says what a call makes of a session (`Moment.session_turn`); all that is proved about
runs comes from it by induction on the calls. What a run does to the history is a fold over its
moments (`history_afterCalls`). A submitted line is taken as a path exactly when the call before it
was the command to change the path, taken as a command; it changes the path and nothing else. Every
other line of an unfinished session is a command, and it adds an entry exactly when it asks for an
expression that has a value.
-/

namespace Reckoner

open Files

/-- What a session is asked to do. -/
inductive Call where
  /-- Take a line. -/
  | submit (line : String)
  /-- End the session. -/
  | finish
deriving DecidableEq, Repr

namespace Session

/-- Make a call. -/
def call (s : Session) (t : Tree) : Call → Turn
  | .submit line => s.submit t line
  | .finish => s.finish t

/-- The session and the tree after calls. -/
def afterCalls (s : Session) (t : Tree) : List Call → Session × Tree
  | [] => (s, t)
  | c :: cs => afterCalls (s.call t c).session (s.call t c).tree cs

end Session

/-- A call, and the session and the tree to which it is made. -/
structure Moment where
  session : Session
  tree : Tree
  call : Call
deriving DecidableEq, Repr

namespace Moment

/-- What the call leads to. -/
def turn (m : Moment) : Turn := m.session.call m.tree m.call

/-- The line that is taken as a path, if one is. -/
def answer? (m : Moment) : Option String :=
  match m.session.phase, m.call with
  | .awaitingPath, .submit line => some line
  | _, _ => none

/-- The entry that the call adds, if it adds one: the line is taken as a command, and what it asks
for has a value. -/
def added? (m : Moment) : Option String :=
  match m.session.phase, m.call with
  | .ready, .submit line =>
    match Command.ofLine line with
    | .evaluate e _ =>
      match Expression.evaluate e with
      | .ok x => some (e ++ " = " ++ x.text)
      | .error _ => none
    | _ => none
  | _, _ => none

/-- The path of the history behind the call. -/
def pathAfter (m : Moment) : Path :=
  match m.answer? with
  | some a => (History.resolvePath a m.session.cwd).getD m.session.history.path
  | none => m.session.history.path

/-- What is expected behind the call. -/
def phaseAfter (m : Moment) : Phase :=
  match m.session.phase, m.call with
  | .finished, _ | _, .finish => .finished
  | .awaitingPath, .submit _ => .ready
  | .ready, .submit line =>
    match Command.ofLine line with
    | .quit => .finished
    | .changePath => .awaitingPath
    | _ => .ready

/-- The call is the command to change the path, taken as a command. -/
def ChangesPath (m : Moment) : Prop :=
  ∃ line, m.call = .submit line ∧ Command.ofLine line = .changePath ∧ m.answer? = none

end Moment

namespace Session

/-- The moments of a sequence of calls. -/
def moments (s : Session) (t : Tree) : List Call → List Moment
  | [] => []
  | c :: cs => ⟨s, t, c⟩ :: moments (s.call t c).session (s.call t c).tree cs

variable {s : Session} {t : Tree}

/-! ### One call -/

theorem isFinished_iff : s.isFinished = true ↔ s.phase = .finished :=
  decide_eq_true_iff

theorem isFinished_eq_false_iff : s.isFinished = false ↔ s.phase ≠ .finished :=
  decide_eq_false_iff_not

theorem isFinished_of_ready (h : s.phase = .ready) : s.isFinished = false := by
  rw [isFinished_eq_false_iff, h]
  exact Phase.noConfusion

theorem isAwaitingPath_iff : s.isAwaitingPath = true ↔ s.phase = .awaitingPath :=
  decide_eq_true_iff

theorem finish_session (s : Session) (t : Tree) :
    (s.finish t).session = { s with phase := .finished } := by
  rw [finish]
  split_ifs with h
  · rw [isFinished_iff] at h
    rw [← h]
  · rfl

theorem tree_finish (h : s.isFinished = false) (t : Tree) :
    (s.finish t).tree = (s.history.save t).tree := by
  rw [finish, if_neg (Bool.eq_false_iff.1 h)]

theorem evaluate_eq (s : Session) (t : Tree) (e : String) (detailed : Bool) :
    s.evaluate t e detailed = match Expression.evaluate e with
      | .ok x => ⟨{ s with history := s.history.record e x }, t,
          [.value e x (Expression.work detailed e).steps]⟩
      | .error f => ⟨s, t, [.failed e f]⟩ := by
  cases he : Expression.evaluate e <;> simp only [evaluate, Expression.outcome_work, he]

theorem submit_of_ready (h : s.phase = .ready) (t : Tree) (line : String) :
    s.submit t line = s.execute t (.ofLine line) := by
  rw [submit, h]

theorem submit_of_awaitingPath (h : s.phase = .awaitingPath) (t : Tree) (line : String) :
    s.submit t line = s.answerPath t line := by
  rw [submit, h]

theorem submit_of_finished (h : s.phase = .finished) (t : Tree) (line : String) :
    s.submit t line = ⟨s, t, []⟩ := by
  rw [submit, h]

end Session

namespace Moment

open Session

/-- What a call makes of a session: an entry may be added, the path may change, and the directory in
which bare names are looked for stays. -/
theorem session_turn (m : Moment) :
    m.turn.session = ⟨⟨m.session.history.entries ++ m.added?.toList, m.pathAfter⟩,
      m.session.cwd, m.phaseAfter⟩ := by
  obtain ⟨s, t, c⟩ := m
  obtain ⟨⟨entries, path⟩, cwd, phase⟩ := s
  cases c with
  | finish =>
    rw [turn, Session.call, finish_session]
    cases phase <;> simp [added?, pathAfter, answer?, phaseAfter]
  | submit line =>
    rw [turn, Session.call]
    cases phase with
    | finished => simp [submit, added?, pathAfter, answer?, phaseAfter]
    | awaitingPath => simp [submit, answerPath, added?, pathAfter, answer?, phaseAfter]
    | ready =>
      -- Only an evaluation with a value has something to add to the entries.
      simp only [submit, added?, pathAfter, answer?, phaseAfter]
      cases Command.ofLine line with
      | quit =>
        rw [execute, finish_session]
        simp
      | showHistory | save | changePath => simp [execute, Session.save]
      | evaluate e detailed =>
        rw [execute, evaluate_eq]
        cases he : Expression.evaluate e <;> simp [History.record, History.entry, he]

/-- The next line is a path exactly when the session goes on and the command to change the path has
just been taken. -/
theorem phase_turn_iff (m : Moment) :
    m.turn.session.phase = .awaitingPath ↔
      m.turn.session.phase ≠ .finished ∧ m.ChangesPath := by
  rw [session_turn]
  obtain ⟨s, t, c⟩ := m
  simp only [phaseAfter, ChangesPath, answer?]
  cases c with
  | finish => cases s.phase <;> simp
  | submit line =>
    cases s.phase with
    | finished | awaitingPath => simp
    | ready => cases h : Command.ofLine line <;> simp [h]

/-- A line taken as a path changes the path and nothing else, whatever it says. -/
theorem turn_of_answer {m : Moment} {a : String} (h : m.answer? = some a) :
    m.turn = ⟨⟨⟨m.session.history.entries, m.pathAfter⟩, m.session.cwd, .ready⟩, m.tree,
      [.pathChanged m.pathAfter]⟩ := by
  obtain ⟨s, t, c⟩ := m
  have hphase : s.phase = .awaitingPath ∧ c = .submit a := by
    cases c <;> cases hp : s.phase <;> simp_all [answer?]
  obtain ⟨hp, rfl⟩ := hphase
  have hpath : pathAfter ⟨s, t, .submit a⟩ = (History.resolvePath a s.cwd).getD s.history.path := by
    rw [pathAfter, h]
  rw [hpath, turn, Session.call, submit_of_awaitingPath hp, answerPath]

/-- An expression without a value changes nothing. -/
theorem turn_of_error {m : Moment} {line e : String} {detailed : Bool} {f : Expression.Fault}
    (hc : m.call = .submit line) (hp : m.session.phase = .ready)
    (hl : Command.ofLine line = .evaluate e detailed) (he : Expression.evaluate e = .error f) :
    m.turn = ⟨m.session, m.tree, [.failed e f]⟩ := by
  rw [turn, hc, Session.call, submit_of_ready hp, hl, execute, evaluate_eq, he]

theorem answer?_eq_some_iff {m : Moment} {line : String} (h : m.call = .submit line) :
    m.answer? = some line ↔ m.session.phase = .awaitingPath := by
  rw [answer?, h]
  cases m.session.phase <;> simp

/-- In an unfinished session a line is taken as a command unless it is taken as a path. -/
theorem phase_of_command {m : Moment} {line : String} (hm : m.call = .submit line)
    (hfinished : m.session.isFinished = false) (ha : m.answer? = none) :
    m.session.phase = .ready := by
  rw [isFinished_eq_false_iff] at hfinished
  cases hp : m.session.phase with
  | ready => rfl
  | awaitingPath =>
    rw [← answer?_eq_some_iff hm, ha] at hp
    cases hp
  | finished => exact absurd hp hfinished

/-- The entries that are added. -/
theorem added?_eq_some_iff (m : Moment) (x : String) :
    m.added? = some x ↔ m.session.isFinished = false ∧ m.answer? = none ∧
      ∃ line e detailed v, m.call = .submit line ∧ Command.ofLine line = .evaluate e detailed ∧
        Expression.evaluate e = .ok v ∧ x = e ++ " = " ++ v.text := by
  obtain ⟨s, t, c⟩ := m
  rw [isFinished_eq_false_iff]
  simp only [added?, answer?]
  cases c with
  | finish => cases s.phase <;> simp
  | submit line =>
    cases s.phase with
    | finished | awaitingPath => simp
    | ready =>
      dsimp only
      constructor
      · intro h
        cases hl : Command.ofLine line with
        | evaluate e detailed =>
          cases he : Expression.evaluate e with
          | ok v =>
            rw [hl] at h
            simp only [he, Option.some.injEq] at h
            exact ⟨Phase.noConfusion, rfl, line, e, detailed, v, rfl, hl, he, h.symm⟩
          | error f => simp [hl, he] at h
        | quit | showHistory | save | changePath => simp [hl] at h
      · rintro ⟨-, -, line', e, detailed, v, hline, hl, he, rfl⟩
        cases hline
        simp only [hl, he]

end Moment

namespace Session

/-! ### Runs of calls -/

/-- The moments follow the calls. -/
theorem map_call_moments (s : Session) (t : Tree) (calls : List Call) :
    (s.moments t calls).map Moment.call = calls := by
  induction calls generalizing s t with
  | nil => rfl
  | cons c cs ih => rw [moments, List.map_cons, ih]

/-- The first moment finds the session as it was. -/
theorem session_eq_of_moments_nil {s : Session} {t : Tree} {calls : List Call}
    {post : List Moment} {m : Moment} (h : s.moments t calls = m :: post) : m.session = s := by
  cases calls with
  | nil => cases h
  | cons c cs =>
    obtain ⟨hm, -⟩ := List.cons_eq_cons.1 h
    rw [← hm]

/-- Each moment finds what the call before it has left. -/
theorem session_eq_of_moments {s : Session} {t : Tree} {calls : List Call}
    {pre post : List Moment} {m m' : Moment} (h : s.moments t calls = pre ++ m' :: m :: post) :
    m.session = m'.turn.session := by
  induction calls generalizing s t pre with
  | nil =>
    rw [moments] at h
    simp at h
  | cons c cs ih =>
    rw [moments] at h
    cases pre with
    | cons p pre =>
      obtain ⟨-, h⟩ := List.cons_eq_cons.1 h
      exact ih h
    | nil =>
      -- the two moments are the first two
      obtain ⟨hm', h⟩ := List.cons_eq_cons.1 h
      cases cs with
      | nil => cases h
      | cons c' cs =>
        obtain ⟨hm, -⟩ := List.cons_eq_cons.1 h
        rw [← hm, ← hm', Moment.turn]

theorem afterCalls_append (s : Session) (t : Tree) (calls more : List Call) :
    s.afterCalls t (calls ++ more) =
      (s.afterCalls t calls).1.afterCalls (s.afterCalls t calls).2 more := by
  induction calls generalizing s t with
  | nil => rfl
  | cons c cs ih => exact ih _ _

theorem moments_append (s : Session) (t : Tree) (calls more : List Call) :
    s.moments t (calls ++ more) = s.moments t calls ++
      (s.afterCalls t calls).1.moments (s.afterCalls t calls).2 more := by
  induction calls generalizing s t with
  | nil => rfl
  | cons c cs ih => rw [List.cons_append, moments, ih, moments, List.cons_append, afterCalls]

/-- Moments that are cut in two are those of the calls before and of the calls behind. -/
theorem moments_eq_of_append {s : Session} {t : Tree} {calls : List Call} {pre post : List Moment}
    (h : s.moments t calls = pre ++ post) :
    s.moments t (pre.map Moment.call) = pre ∧
      (s.afterCalls t (pre.map Moment.call)).1.moments (s.afterCalls t (pre.map Moment.call)).2
        (post.map Moment.call) = post := by
  have hcalls : calls = pre.map Moment.call ++ post.map Moment.call := by
    rw [← List.map_append, ← h, map_call_moments]
  rw [hcalls, moments_append] at h
  refine List.append_inj h ?_
  have hlength := congrArg List.length (map_call_moments s t (pre.map Moment.call))
  rwa [List.length_map, List.length_map] at hlength

/-- The next line is a path exactly when the session goes on and the last call was the command to
change the path, taken as a command. -/
theorem phase_afterCalls_iff (h : History) (cwd : Path) (t : Tree) (calls : List Call) :
    ((new h cwd).afterCalls t calls).1.phase = .awaitingPath ↔
      ((new h cwd).afterCalls t calls).1.phase ≠ .finished ∧
        ∃ m, ((new h cwd).moments t calls).getLast? = some m ∧ m.ChangesPath := by
  rcases calls.eq_nil_or_concat' with rfl | ⟨calls, c, rfl⟩
  · -- Before the first call a session expects a command.
    simp [afterCalls, moments, new]
  · rw [afterCalls_append, moments_append, moments, moments, List.getLast?_concat]
    simp only [Option.some.injEq, exists_eq_left']
    exact Moment.phase_turn_iff ⟨_, _, c⟩

theorem entries_afterCalls (s : Session) (t : Tree) (calls : List Call) :
    (s.afterCalls t calls).1.history.entries =
      s.history.entries ++ (s.moments t calls).filterMap Moment.added? := by
  induction calls generalizing s t with
  | nil => exact (List.append_nil _).symm
  | cons c cs ih =>
    have hturn := Moment.session_turn ⟨s, t, c⟩
    rw [afterCalls, ih, moments]
    rw [Moment.turn] at hturn
    -- the entry of the first call stands before those of the others
    rw [hturn, List.append_assoc]
    cases h : Moment.added? ⟨s, t, c⟩ <;> simp [h]

theorem path_afterCalls (s : Session) (t : Tree) (calls : List Call) :
    (s.afterCalls t calls).1.history.path =
      ((s.moments t calls).filterMap Moment.answer?).foldl
        (fun p a => (History.resolvePath a s.cwd).getD p) s.history.path := by
  induction calls generalizing s t with
  | nil => rfl
  | cons c cs ih =>
    have hturn := Moment.session_turn ⟨s, t, c⟩
    rw [afterCalls, ih, moments]
    rw [Moment.turn] at hturn
    rw [hturn]
    cases h : Moment.answer? ⟨s, t, c⟩ <;> simp [Moment.pathAfter, h]

/-- **The history after calls.** A line is taken as a path exactly when the session goes on and the
call before was the command to change the path, itself taken as a command. The entries are those at
the beginning and one for each line that was taken as a command and asks for an expression with a
value; the path is the one at the beginning, changed by the lines taken as paths. Such lines, and
expressions without a value, change nothing else. -/
theorem history_afterCalls (h : History) (cwd : Path) (t : Tree) (calls : List Call) :
    let s := Session.new h cwd
    (s.moments t calls).map Moment.call = calls ∧
    (∀ pre m post line, s.moments t calls = pre ++ m :: post → m.call = .submit line →
      (m.answer? = some line ↔
        m.session.isFinished = false ∧ ∃ m', pre.getLast? = some m' ∧ m'.ChangesPath)) ∧
    (s.afterCalls t calls).1.history.entries =
      h.entries ++ (s.moments t calls).filterMap Moment.added? ∧
    (s.afterCalls t calls).1.history.path =
      ((s.moments t calls).filterMap Moment.answer?).foldl
        (fun p a => (History.resolvePath a cwd).getD p) h.path ∧
    (∀ m ∈ s.moments t calls, ∀ a, m.answer? = some a →
      m.turn = ⟨⟨⟨m.session.history.entries, m.pathAfter⟩, m.session.cwd, .ready⟩, m.tree,
        [.pathChanged m.pathAfter]⟩) ∧
    (∀ m ∈ s.moments t calls, ∀ line e detailed f, m.call = .submit line →
      m.session.isFinished = false → m.answer? = none →
      Command.ofLine line = .evaluate e detailed → Expression.evaluate e = .error f →
      m.turn = ⟨m.session, m.tree, [.failed e f]⟩) := by
  intro s
  refine ⟨map_call_moments s t calls, ?_, entries_afterCalls s t calls, path_afterCalls s t calls,
    ?_, ?_⟩
  · intro pre m post line hsplit hm
    rw [Moment.answer?_eq_some_iff hm, isFinished_eq_false_iff]
    rcases pre.eq_nil_or_concat' with rfl | ⟨pre, m', rfl⟩
    · -- Before the first call a session expects a command.
      rw [session_eq_of_moments_nil hsplit]
      simp [s, new]
    · rw [List.append_assoc] at hsplit
      rw [session_eq_of_moments hsplit, Moment.phase_turn_iff]
      simp
  · intro m _ a ha
    exact Moment.turn_of_answer ha
  · intro m _ line e detailed f hm hfinished ha hl he
    exact Moment.turn_of_error hm (Moment.phase_of_command hm hfinished ha) hl he

/-- A command given as a path is neither carried out nor recorded. -/
theorem history_after_path_question :
    let s := Session.new ⟨[], ⟨"h.log"⟩⟩ ⟨"/d"⟩
    let calls := [.submit "c", .submit "q", .submit "1+1", .submit "1/", .finish]
    Moment.answer? ⟨(s.call (.empty []) (.submit "c")).session, .empty [], .submit "q"⟩ = some "q" ∧
      (s.afterCalls (.empty []) calls).1.history.entries = ["1+1 = 2"] ∧
      (s.afterCalls (.empty []) calls).1.history.path = ⟨"/d/q"⟩ := by
  intro s calls
  obtain ⟨-, hanswer, hentries, hpath, -, -⟩ :=
    history_afterCalls ⟨[], ⟨"h.log"⟩⟩ ⟨"/d"⟩ (.empty []) calls
  refine ⟨?_, ?_, ?_⟩
  · refine (hanswer [⟨s, .empty [], .submit "c"⟩] _ _ "q" rfl rfl).2
      ⟨rfl, _, rfl, "c", rfl, ?_, rfl⟩
    decide +kernel
  · rw [hentries]
    decide +kernel
  · rw [hpath]
    decide +kernel

end Session

end Reckoner
