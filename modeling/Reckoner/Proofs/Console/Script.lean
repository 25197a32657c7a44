import Reckoner.Console.Script
import Reckoner.Proofs.Session.Dialogue
import Reckoner.Proofs.Session.Ending

/-!
# Dialogues that follow a script

A script makes calls of a session: its lines are submitted up to the first failure, and if there is
none the end of the input finishes the session. The reads of a dialogue are the moments of these
calls up to the one that finishes the session, and each leaves a round in the log, the prompt and
the replies to it. `Script.Follows` says all that there is to a dialogue, and
`Script.follows_converse` that it is so.

A dialogue that breaks down has read up to the first failure of its script. Nothing is lost by that:
the entries are in the session, and nothing has been saved that was not asked to be
(`Script.run_reads`).
-/

namespace Reckoner

open Files

namespace Session

variable {s : Session} {t : Tree}

/-! ### The moments of a session that goes on -/

/-- The moments of calls up to the one that finishes the session. -/
def openMoments (s : Session) (t : Tree) (calls : List Call) : List Moment :=
  (s.moments t calls).takeWhile fun m => !m.session.isFinished

theorem openMoments_of_finished (h : s.isFinished = true) (t : Tree) (calls : List Call) :
    s.openMoments t calls = [] := by
  cases calls with
  | nil => rfl
  | cons c cs => simp [openMoments, moments, h]

theorem openMoments_cons (h : s.isFinished = false) (t : Tree) (c : Call) (cs : List Call) :
    s.openMoments t (c :: cs) =
      ⟨s, t, c⟩ :: (s.call t c).session.openMoments (s.call t c).tree cs := by
  simp [openMoments, moments, h]

/-- The calls behind the one that finishes the session do nothing. -/
theorem afterCalls_openMoments (s : Session) (t : Tree) (calls : List Call) :
    s.afterCalls t ((s.openMoments t calls).map Moment.call) = s.afterCalls t calls := by
  induction calls generalizing s t with
  | nil => rfl
  | cons c cs ih =>
    cases h : s.isFinished with
    | true =>
      rw [openMoments_of_finished h, afterCalls_of_finished h, afterCalls_of_finished h]
    | false =>
      rw [openMoments_cons h, List.map_cons, afterCalls, ih]
      rfl

/-- The calls up to the one that finishes the session have these moments. -/
theorem moments_openMoments (s : Session) (t : Tree) (calls : List Call) :
    s.moments t ((s.openMoments t calls).map Moment.call) = s.openMoments t calls := by
  induction calls generalizing s t with
  | nil => rfl
  | cons c cs ih =>
    cases h : s.isFinished with
    | true =>
      rw [openMoments_of_finished h]
      rfl
    | false => rw [openMoments_cons h, List.map_cons, moments, ih]

theorem length_openMoments_le (s : Session) (t : Tree) (calls : List Call) :
    (s.openMoments t calls).length ≤ calls.length := by
  have hlength := congrArg List.length (map_call_moments s t calls)
  rw [List.length_map] at hlength
  rw [← hlength]
  exact (List.takeWhile_sublist _).length_le

end Session

namespace Script

open Session

/-! ### What a script asks for -/

/-- The calls that a script makes of a session up to its first failure. -/
def calls : List Cue → List Call
  | [] => [.finish]
  | .failure _ :: _ => []
  | .line text :: cues => .submit text :: calls cues

/-- The first failure of a script. -/
def failure? : List Cue → Option Breakdown
  | [] => none
  | .failure message :: _ => some ⟨none, message⟩
  | .line _ :: cues => failure? cues

/-- What is seen of a read: the prompt, and the replies in order. -/
def round (m : Moment) : List Event :=
  .asked m.session.prompt :: m.turn.replies.map fun r => .shown r.text

theorem length_calls_le (cues : List Cue) : (calls cues).length ≤ cues.length + 1 := by
  induction cues with
  | nil => exact Nat.le_refl _
  | cons cue cues ih =>
    cases cue with
    | line text => exact Nat.succ_le_succ ih
    | failure message => exact Nat.zero_le _

/-- Without a failure the script finishes the session. -/
theorem exists_failure_of_not_finished (s : Session) (t : Tree) (cues : List Cue)
    (h : (s.afterCalls t (calls cues)).1.isFinished = false) : ∃ b, failure? cues = some b := by
  induction cues generalizing s t with
  | nil =>
    rw [calls, afterCalls, afterCalls, Session.call, finish_session] at h
    cases h
  | cons cue cues ih =>
    cases cue with
    | line text => exact ih _ _ h
    | failure message => exact ⟨⟨none, message⟩, rfl⟩

/-! ### Dialogues -/

theorem displayAll_eq (replies : List Reply) (k : State) :
    (console.displayAll replies k).cues = k.cues ∧
      (console.displayAll replies k).log = k.log ++ replies.map fun r => .shown r.text := by
  induction replies generalizing k with
  | nil => exact ⟨rfl, (List.append_nil _).symm⟩
  | cons r rs ih =>
    obtain ⟨hcues, hlog⟩ := ih (console.display r.text k)
    refine ⟨hcues, hlog.trans ?_⟩
    simp [console, State.log]

/-- A dialogue is what follows from the calls of the script that is left. -/
structure Follows (s : Session) (t : Tree) (k : State) (d : Dialogue State) : Prop where
  /-- The calls are made. -/
  after : (d.session, d.tree) = s.afterCalls t (calls k.cues)
  /-- Each read leaves a round; a read that fails leaves its prompt. -/
  log : d.console.log = k.log ++ ((s.openMoments t (calls k.cues)).flatMap round ++
    if d.session.isFinished then [] else [.asked d.session.prompt])
  /-- Nothing is read behind the finishing call or the failure. -/
  cues : d.console.cues = k.cues.drop ((s.openMoments t (calls k.cues)).length +
    if d.session.isFinished then 0 else 1)
  /-- The failure is told. -/
  breakdown : d.breakdown = if d.session.isFinished then none else failure? k.cues

theorem follows_of_finished {s : Session} (hs : s.isFinished = true) (t : Tree) (k : State) :
    Follows s t k (console.converse s t k) := by
  have hreads := openMoments_of_finished hs t (calls k.cues)
  rw [Console.converse_of_finished hs]
  constructor
  · exact (afterCalls_of_finished hs t _).symm
  · simp [hreads, hs]
  · simp [hreads, hs]
  · simp [hs]

/-- A line is read, and the dialogue goes on. -/
theorem Follows.line {s : Session} (hs : s.isFinished = false) {t : Tree} {k : State}
    {text : String} {cues : List Cue} (hk : k.cues = .line text :: cues) {k' : State}
    (hcues : k'.cues = cues)
    (hlog : k'.log = k.log ++ round ⟨s, t, .submit text⟩) {d : Dialogue State}
    (h : Follows (s.submit t text).session (s.submit t text).tree k' d) : Follows s t k d := by
  obtain ⟨hafter, hlog', hcues', hbreakdown⟩ := h
  have hreads : s.openMoments t (calls k.cues) = ⟨s, t, .submit text⟩ ::
      (s.submit t text).session.openMoments (s.submit t text).tree (calls cues) := by
    rw [hk, calls, openMoments_cons hs, Session.call]
  rw [hcues] at hafter hlog' hcues' hbreakdown
  constructor
  · rw [hk]
    exact hafter
  · rw [hlog', hlog, hreads, List.flatMap_cons]
    simp only [List.append_assoc]
  · rw [hcues', hreads, hk, List.length_cons, Nat.add_right_comm, List.drop_succ_cons]
  · rw [hbreakdown, hk]
    rfl

theorem follows_converse (s : Session) (t : Tree) (k : State) :
    Follows s t k (console.converse s t k) := by
  induction hk : k.cues generalizing s t k with
  | nil =>
    cases hs : s.isFinished with
    | true => exact follows_of_finished hs t k
    | false =>
      -- the end of the input finishes the session
      have hask : console.ask s.prompt k = .closed ⟨[], .asked s.prompt :: k.latestFirst⟩ := by
        simp only [console, ask, hk]
      rw [Console.converse_of_not_finished hs, hask]
      dsimp only
      obtain ⟨hcues, hlog⟩ := displayAll_eq (s.finish t).replies
        ⟨[], .asked s.prompt :: k.latestFirst⟩
      have hfinished : (s.finish t).session.isFinished = true := by
        rw [finish_session, isFinished_iff]
      have hreads : s.openMoments t (calls k.cues) = [⟨s, t, .finish⟩] := by
        rw [hk, calls, openMoments_cons hs]
        rfl
      constructor
      · rw [hk]
        rfl
      · rw [hlog, hreads]
        simp [hfinished, round, State.log, Moment.turn, Session.call]
      · rw [hcues, hreads, hk]
        simp
      · simp [hfinished]
  | cons cue cues ih =>
    cases hs : s.isFinished with
    | true => exact follows_of_finished hs t k
    | false =>
      cases cue with
      | failure message =>
        have hask : console.ask s.prompt k =
            .broken ⟨none, message⟩ ⟨cues, .asked s.prompt :: k.latestFirst⟩ := by
          simp only [console, ask, hk]
        rw [Console.converse_of_not_finished hs, hask]
        have hreads : s.openMoments t (calls k.cues) = [] := by
          rw [hk]
          rfl
        constructor
        · rw [hk]
          rfl
        · simp [hreads, hs, State.log]
        · rw [hreads, hk]
          simp [hs]
        · simp [hs, hk, failure?]
      | line text =>
        have hask : console.ask s.prompt k =
            .line text ⟨cues, .asked s.prompt :: k.latestFirst⟩ := by
          simp only [console, ask, hk]
        rw [Console.converse_of_not_finished hs, hask]
        obtain ⟨hcues, hlog⟩ := displayAll_eq (s.submit t text).replies
          ⟨cues, .asked s.prompt :: k.latestFirst⟩
        refine .line hs hk hcues ?_ (ih _ _ _ hcues)
        rw [hlog]
        simp [round, State.log, Moment.turn, Session.call]

/-! ### Reads -/

theorem prompt_eq_pathPrompt_iff {s : Session} :
    s.prompt = Session.pathPrompt ↔ s.phase = .awaitingPath := by
  have hne : Session.commandPrompt ≠ Session.pathPrompt := by decide
  rw [Session.prompt, ← isAwaitingPath_iff]
  cases s.isAwaitingPath <;> simp [hne]

section Reads

variable {h : History} {cwd : Path} {t : Tree} {calls : List Call} {before behind : List Moment}
  {m : Moment}

/-- A read comes with the state to which the reads before it have led, and the session goes on. -/
theorem state_of_openMoments {s : Session}
    (hsplit : s.openMoments t calls = before ++ m :: behind) :
    m.session = (s.afterCalls t (before.map Moment.call)).1 ∧ m.session.isFinished = false ∧
      s.moments t (before.map Moment.call) = before := by
  have hmem : m ∈ s.openMoments t calls := by
    rw [hsplit]
    exact List.mem_append_right _ List.mem_cons_self
  have hopen := List.mem_takeWhile_imp hmem
  have hmoments := moments_openMoments s t calls
  rw [hsplit] at hmoments
  obtain ⟨hbefore, hbehind⟩ := moments_eq_of_append hmoments
  exact ⟨session_eq_of_moments_nil hbehind, by simpa using hopen, hbefore⟩

/-- The prompt of a read asks for a path exactly when the read before it was the command to change
the path. -/
theorem prompt_of_openMoments
    (hsplit : (Session.new h cwd).openMoments t calls = before ++ m :: behind) :
    m.session.prompt = Session.pathPrompt ↔ ∃ m', before.getLast? = some m' ∧ m'.ChangesPath := by
  obtain ⟨hsession, hopen, hbefore⟩ := state_of_openMoments hsplit
  rw [isFinished_eq_false_iff] at hopen
  rw [prompt_eq_pathPrompt_iff]
  rw [hsession] at hopen ⊢
  rw [phase_afterCalls_iff, hbefore, and_iff_right hopen]

/-- Behind the read that finishes the session there is none. -/
theorem eq_nil_of_openMoments {s : Session} (hsplit : s.openMoments t calls = before ++ m :: behind)
    (hm : m.turn.session.isFinished = true) : behind = [] := by
  cases behind with
  | nil => rfl
  | cons m' behind =>
    have hnext : m'.session = m.turn.session :=
      session_eq_of_moments ((moments_openMoments s t calls).trans hsplit)
    rw [← List.singleton_append, ← List.append_assoc] at hsplit
    obtain ⟨-, hopen, -⟩ := state_of_openMoments hsplit
    rw [hnext, hm] at hopen
    cases hopen

/-- Reads that do not save leave the tree as it is. -/
theorem tree_of_openMoments {s : Session} (hsplit : s.openMoments t calls = before ++ behind)
    (hsaves : ∀ m ∈ behind, ¬ m.session.SavesOn m.call) :
    (s.afterCalls t calls).2 = (s.afterCalls t (before.map Moment.call)).2 := by
  obtain ⟨-, hbehind⟩ := moments_eq_of_append ((moments_openMoments s t calls).trans hsplit)
  rw [← afterCalls_openMoments, hsplit, List.map_append, afterCalls_append]
  rw [← hbehind] at hsaves
  exact tree_afterCalls_of_not_savesOn hsaves

/-- A session that goes on has been saved only by the command to save. -/
theorem save_of_openMoments
    (hopen : ((Session.new h cwd).afterCalls t calls).1.isFinished = false)
    (hm : m ∈ (Session.new h cwd).openMoments t calls) (hsaves : m.session.SavesOn m.call) :
    ∃ line, m.call = .submit line ∧ Command.ofLine line = .save := by
  rw [← afterCalls_openMoments] at hopen
  have hends : ¬ m.Ends := by
    intro hends
    refine Bool.eq_false_iff.1 hopen ((isFinished_afterCalls_iff h cwd t _).2 ⟨m, ?_, hends⟩)
    rw [moments_openMoments]
    exact hm
  have hs := hsaves.isFinished
  cases hc : m.call with
  | finish =>
    refine absurd ⟨hs, ?_⟩ hends
    rw [Moment.turn, hc, Session.call, finish_session, isFinished_iff]
  | submit line =>
    rw [hc, savesOn_submit_iff] at hsaves
    obtain ⟨hp, hsave | hquit⟩ := hsaves
    · exact ⟨line, rfl, hsave⟩
    · refine absurd ⟨hs, ?_⟩ hends
      rw [Moment.turn_of_command hp hc hquit, execute, finish_session, isFinished_iff]

end Reads

/-- **The dialogue that follows a script.** The log has the banner and then a round for each read,
the prompt that belongs to it and the replies to it; a read that fails leaves its prompt alone.
Nothing is read behind the read that finishes the session. The dialogue breaks down exactly if the
session is not finished, and then with the first failure of the script; all entries are in the
session, only the command to save has saved them, and nothing has touched the tree since. -/
theorem run_reads (h : History) (cwd : Path) (t : Tree) (cues : List Cue) :
    let s := Session.new h cwd
    let d := console.run s t (.start cues)
    let reads := s.openMoments t (calls cues)
    d.console.log = .shown s.banner :: (reads.flatMap round ++
      if d.session.isFinished then [] else [.asked d.session.prompt]) ∧
    (∀ before m behind, reads = before ++ m :: behind →
      (m.session.prompt = Session.pathPrompt ↔
        ∃ m', before.getLast? = some m' ∧ m'.ChangesPath) ∧
      (m.turn.session.isFinished = true → behind = [])) ∧
    reads.length ≤ cues.length + 1 ∧
    d.console.cues = cues.drop (reads.length + if d.session.isFinished then 0 else 1) ∧
    (d.session, d.tree) = s.afterCalls t (reads.map Moment.call) ∧
    (d.breakdown = none ↔ d.session.isFinished = true) ∧
    (d.session.isFinished = false →
      (∃ b, failure? cues = some b ∧ d.breakdown = some b) ∧
      (d.session.prompt = Session.pathPrompt ↔
        ∃ m, reads.getLast? = some m ∧ m.ChangesPath) ∧
      d.session.history.entries = h.entries ++ reads.filterMap Moment.added? ∧
      (∀ m ∈ reads, m.session.SavesOn m.call →
        ∃ line, m.call = .submit line ∧ Command.ofLine line = .save) ∧
      ∀ before behind, reads = before ++ behind →
        (∀ m ∈ behind, ¬ m.session.SavesOn m.call) →
        d.tree = (s.afterCalls t (before.map Moment.call)).2) := by
  intro s d reads
  have hd : Follows s t ⟨cues, [.shown s.banner]⟩ d := follows_converse s t _
  obtain ⟨hafter, hlog, hcues, hbreakdown⟩ := hd
  have hsession : d.session = (s.afterCalls t (calls cues)).1 := congrArg Prod.fst hafter
  have htree : d.tree = (s.afterCalls t (calls cues)).2 := congrArg Prod.snd hafter
  have hmoments : s.moments t (reads.map Moment.call) = reads := moments_openMoments s t _
  refine ⟨hlog, fun before m behind hsplit => ?_, ?_, hcues, ?_, ?_, fun hopen => ?_⟩
  · exact ⟨prompt_of_openMoments hsplit, eq_nil_of_openMoments hsplit⟩
  · exact (length_openMoments_le s t _).trans (length_calls_le cues)
  · rw [afterCalls_openMoments]
    exact hafter
  · rw [hbreakdown]
    cases hopen : d.session.isFinished with
    | true => simp
    | false =>
      rw [hsession] at hopen
      obtain ⟨b, hb⟩ := exists_failure_of_not_finished s t cues hopen
      simp [hb]
  · have hbroken := exists_failure_of_not_finished s t cues (hsession ▸ hopen)
    refine ⟨?_, ?_, ?_, ?_, ?_⟩
    · obtain ⟨b, hb⟩ := hbroken
      refine ⟨b, hb, ?_⟩
      rw [hbreakdown, hopen, hb]
      rfl
    · have hphase := phase_afterCalls_iff h cwd t (reads.map Moment.call)
      rw [hmoments, afterCalls_openMoments, ← hsession] at hphase
      rw [isFinished_eq_false_iff] at hopen
      rw [prompt_eq_pathPrompt_iff, hphase, and_iff_right hopen]
    · rw [hsession, ← afterCalls_openMoments, entries_afterCalls, hmoments]
      rfl
    · rw [hsession] at hopen
      exact fun m hm => save_of_openMoments hopen hm
    · intro before behind hsplit hsaves
      rw [htree]
      exact tree_of_openMoments hsplit hsaves

end Script

end Reckoner
