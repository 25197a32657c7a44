import Reckoner.Proofs.History.Saving
import Reckoner.Proofs.Session.Calls

/-!
# What a session does to files

A session touches the file tree only to save its history: when a line is taken as the command to
save or to quit, or when the session is asked to finish and has not yet finished (`SavesOn`). Every
other call gives the same session and the same replies for every tree and leaves the tree as it is
(`exists_call_eq_of_not_savesOn`).

A call that saves leaves the history as it is and the tree that saving gives, so what is known about
saving holds for it (`call_effect`). Over a run, whatever is changed stands where a path that the
history had led to, or above it (`node?_afterCalls`).
-/

namespace Reckoner.Session

open Files Tree

variable {s : Session} {t : Tree} {c : Call}

/-! ### One call -/

/-- The call is to save the history. -/
def SavesOn (s : Session) : Call → Prop
  | .submit line => s.isFinished = false ∧ s.isAwaitingPath = false ∧
      (Command.ofLine line = .save ∨ Command.ofLine line = .quit)
  | .finish => s.isFinished = false

theorem savesOn_submit_iff {line : String} : s.SavesOn (.submit line) ↔ s.phase = .ready ∧
    (Command.ofLine line = .save ∨ Command.ofLine line = .quit) := by
  rw [SavesOn, isFinished, isAwaitingPath]
  cases s.phase <;> simp

/-- A call that does not save has nothing to do with the tree. -/
theorem exists_call_eq_of_not_savesOn (h : ¬ s.SavesOn c) :
    ∃ s' replies, ∀ t, s.call t c = ⟨s', t, replies⟩ := by
  cases c with
  | finish =>
    rw [SavesOn, Bool.not_eq_false] at h
    exact ⟨s, [], fun t => by rw [call, finish, if_pos h]⟩
  | submit line =>
    rw [savesOn_submit_iff, not_and_or, not_or] at h
    cases hp : s.phase with
    | finished => exact ⟨s, [], fun t => submit_of_finished hp t line⟩
    | awaitingPath => exact ⟨_, _, fun t => by rw [call, submit_of_awaitingPath hp, answerPath]⟩
    | ready =>
      obtain ⟨hsave, hquit⟩ := h.resolve_left (not_not_intro hp)
      cases hl : Command.ofLine line with
      | save => exact absurd hl hsave
      | quit => exact absurd hl hquit
      | showHistory | changePath =>
        exact ⟨_, _, fun t => by rw [call, submit_of_ready hp, hl, execute]⟩
      | evaluate e detailed =>
        have hcall (t : Tree) : s.call t (.submit line) = s.evaluate t e detailed := by
          rw [call, submit_of_ready hp, hl, execute]
        simp only [hcall, evaluate_eq]
        cases Expression.evaluate e with
        | ok x => exact ⟨_, _, fun t => rfl⟩
        | error f => exact ⟨_, _, fun t => rfl⟩

theorem SavesOn.isFinished (h : s.SavesOn c) : s.isFinished = false := by
  cases c with
  | finish => exact h
  | submit line => exact h.1

/-- A call that saves is to save and go on, or to finish. -/
theorem call_eq_of_savesOn (h : s.SavesOn c) (t : Tree) :
    s.call t c = s.save t ∨ s.call t c = s.finish t := by
  cases c with
  | finish => exact Or.inr rfl
  | submit line =>
    rw [savesOn_submit_iff] at h
    obtain ⟨hp, hl | hl⟩ := h
    · exact Or.inl (by rw [call, submit_of_ready hp, hl, execute])
    · exact Or.inr (by rw [call, submit_of_ready hp, hl, execute])

/-- What a call that saves does: the tree is the one that saving gives, and the replies tell how it
went and whether the session has ended. -/
theorem call_of_savesOn (h : s.SavesOn c) (t : Tree) :
    (s.call t c).session.history = s.history ∧ (s.call t c).tree = (s.history.save t).tree ∧
      (s.call t c).replies = match (s.history.save t).error with
        | none => [if (s.call t c).session.isFinished then .goodbye else .saved s.history.path]
        | some e => .saveFailed s.history.path e ::
            if (s.call t c).session.isFinished then [.goodbye] else [] := by
  have hfinished := h.isFinished
  rcases call_eq_of_savesOn h t with hcall | hcall
  · rw [hcall, save]
    refine ⟨rfl, rfl, ?_⟩
    cases he : (s.history.save t).error <;> simp [savingReply, he, hfinished]
  · rw [hcall, finish, if_neg (by simp [hfinished])]
    refine ⟨rfl, rfl, ?_⟩
    cases he : (s.history.save t).error <;> simp [isFinished, he]

/-- **What a call does to files.** A call that does not save has nothing to do with the tree. A call
that saves leaves the history as it is. If it succeeds, the entries are in the file, nothing else
has changed but directories that were missing above the file, and saving again changes nothing. If
it fails, every file is as it was, only missing directories may have been made, and the reply says
that the path could not be saved to. -/
theorem call_effect (s : Session) (t : Tree) (c : Call) :
    let turn := s.call t c
    (¬ s.SavesOn c → ∃ s' replies, ∀ u, s.call u c = ⟨s', u, replies⟩) ∧
    (s.SavesOn c → turn.session.history = s.history ∧ turn.tree = (s.history.save t).tree ∧
      match (s.history.save t).error with
      | none =>
        (∃ l, s.history.FiledAt t turn.tree l) ∧
        s.history.save turn.tree = ⟨turn.tree, none⟩ ∧
        turn.replies = [if turn.session.isFinished then .goodbye else .saved s.history.path]
      | some e =>
        Extends s.history.path.ancestors t turn.tree ∧
        (∀ l content, turn.tree.node? l = some (.file content) ↔
          t.node? l = some (.file content)) ∧
        turn.replies = .saveFailed s.history.path e ::
          if turn.session.isFinished then [.goodbye] else []) := by
  intro turn
  refine ⟨exists_call_eq_of_not_savesOn, fun h => ?_⟩
  obtain ⟨hhistory, htree, hreplies⟩ := call_of_savesOn h t
  refine ⟨hhistory, htree, ?_⟩
  simp only [turn, htree]
  cases hs : s.history.save t with
  | mk u e =>
    rw [hs] at hreplies
    cases e with
    | none => exact ⟨History.exists_filedAt hs, History.save_save hs, hreplies⟩
    | some e =>
      have hextends := History.extends_of_error (e := e) (by rw [hs])
      rw [hs] at hextends
      exact ⟨hextends, fun l content => hextends.node?_eq_file_iff, hreplies⟩

/-- A history is saved in a directory that was missing; another is not, because its path ends in a
slash, but the directory has been made; and showing the history does nothing. -/
theorem call_effect_missing_directory :
    let t := Tree.empty []
    let s := Session.new ⟨["1+1 = 2"], ⟨"d/h.log"⟩⟩ ⟨"/"⟩
    let s' := Session.new ⟨["1+1 = 2"], ⟨"d/e/"⟩⟩ ⟨"/"⟩
    (s.SavesOn (.submit "s") ∧ (s.history.save t).error = none ∧
      ∃ l, s.history.FiledAt t (s.call t (.submit "s")).tree l) ∧
    (s'.SavesOn .finish ∧
      (s'.history.save t).error = some (.file ⟨"d/e/"⟩ .isDirectory) ∧
      (s'.call t .finish).tree.node? [['d']] = some .directory ∧
      ∀ l content, (s'.call t .finish).tree.node? l = some (.file content) ↔
        t.node? l = some (.file content)) ∧
    (¬ s.SavesOn (.submit "h") ∧
      ∃ s₁ replies, ∀ u, s.call u (.submit "h") = ⟨s₁, u, replies⟩) := by
  intro t s s'
  have hsaves : s.SavesOn (.submit "s") := by
    rw [savesOn_submit_iff]
    exact ⟨rfl, Or.inl (by decide +kernel)⟩
  have hsaves' : s'.SavesOn .finish := rfl
  have hshows : ¬ s.SavesOn (.submit "h") := by
    rw [savesOn_submit_iff]
    decide +kernel
  have hsaved : (s.history.save t).error = none := by decide +kernel
  have hfailed : (s'.history.save t).error = some (.file ⟨"d/e/"⟩ .isDirectory) := by
    decide +kernel
  obtain ⟨-, -, hsuccess⟩ := (call_effect s t (.submit "s")).2 hsaves
  obtain ⟨-, htree, hfailure⟩ := (call_effect s' t .finish).2 hsaves'
  rw [hsaved] at hsuccess
  rw [hfailed] at hfailure
  refine ⟨⟨hsaves, hsaved, hsuccess.1⟩, ⟨hsaves', hfailed, ?_, hfailure.2.1⟩, hshows,
    (call_effect s t (.submit "h")).1 hshows⟩
  rw [htree]
  decide +kernel

/-! ### Runs -/

/-- A call changes only what stands where the path of the history or an ancestor of it leads. -/
theorem node?_call (s : Session) (t : Tree) (c : Call) (l : Location) :
    (s.call t c).tree.node? l = t.node? l ∨ s.SavesOn c ∧
      ∃ p ∈ s.history.path :: s.history.path.ancestors, (s.call t c).tree.LeadsTo p l := by
  by_cases h : s.SavesOn c
  · rw [(call_of_savesOn h t).2.1]
    exact (History.node?_save s.history t l).imp_right fun hl => ⟨h, hl⟩
  · obtain ⟨s', replies, hcall⟩ := exists_call_eq_of_not_savesOn h
    exact Or.inl (by rw [hcall])

/-- Calls that do not save leave the tree as it is. -/
theorem tree_afterCalls_of_not_savesOn {calls : List Call}
    (h : ∀ m ∈ s.moments t calls, ¬ m.session.SavesOn m.call) : (s.afterCalls t calls).2 = t := by
  induction calls generalizing s with
  | nil => rfl
  | cons c cs ih =>
    rw [moments, List.forall_mem_cons] at h
    obtain ⟨s', replies, hcall⟩ := exists_call_eq_of_not_savesOn h.1
    rw [hcall] at h
    rw [afterCalls, hcall]
    exact ih h.2

/-- A run changes only what stands where paths that the history had led to, or above that. -/
theorem node?_afterCalls (s : Session) (t : Tree) (calls : List Call) (l : Location) :
    (s.afterCalls t calls).2.node? l = t.node? l ∨
      ∃ m ∈ s.moments t calls, m.session.SavesOn m.call ∧
        ∃ p ∈ m.session.history.path :: m.session.history.path.ancestors,
          m.turn.tree.LeadsTo p l := by
  induction calls generalizing s t with
  | nil => exact Or.inl rfl
  | cons c cs ih =>
    rw [afterCalls, moments]
    rcases ih (s.call t c).session (s.call t c).tree with hsame | ⟨m, hm, hsaves⟩
    · rw [hsame]
      refine (node?_call s t c l).imp_right fun hsaves => ?_
      exact ⟨⟨s, t, c⟩, List.mem_cons_self, hsaves⟩
    · exact Or.inr ⟨m, List.mem_cons_of_mem _ hm, hsaves⟩

end Reckoner.Session
