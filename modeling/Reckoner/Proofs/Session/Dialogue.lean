import Reckoner.Proofs.Session.Lines
import Reckoner.Session.Dialogue

/-!
# Dialogues with consoles that deliver

A console *delivers* lines when it supplies them in order, but for blanks at their ends, then says
that the input has ended, and never fails. What a dialogue over such a console makes of the session
and the tree depends on the lines alone (`Console.Delivers.run`).
-/

namespace Reckoner

open Files Text

namespace Console

variable {κ : Type} {c : Console κ} {s : Session} {t : Tree} {k : κ}

/-! ### One round -/

theorem converse_of_finished (h : s.isFinished = true) (t : Tree) (k : κ) :
    c.converse s t k = ⟨s, t, k, none⟩ := by
  rw [converse, if_pos h]

/-- A finished session takes no more lines, whatever the console still holds. -/
theorem converse_feed_of_finished (h : s.isFinished = true) (t : Tree) (k : κ)
    (lines : List String) :
    (c.converse s t k).session = (s.feed t lines).1 ∧
      (c.converse s t k).tree = (s.feed t lines).2 ∧ (c.converse s t k).breakdown = none := by
  rw [converse_of_finished h, Session.feed_of_finished (Session.isFinished_iff.1 h)]
  exact ⟨rfl, rfl, rfl⟩

/-- A round of an unfinished session goes by what the console supplies. -/
theorem converse_of_not_finished (h : s.isFinished = false) (t : Tree) (k : κ) :
    c.converse s t k = match c.ask s.prompt k with
      | .broken why k' => ⟨s, t, k', some why⟩
      | .closed k' =>
        ⟨(s.finish t).session, (s.finish t).tree, c.displayAll (s.finish t).replies k', none⟩
      | .line text k' => c.converse (s.submit t text).session (s.submit t text).tree
          (c.displayAll (s.submit t text).replies k') := by
  rw [converse, if_neg (Bool.eq_false_iff.1 h)]
  split
  all_goals
    rename_i hask
    rw [hask]

/-- What no message changes, no replies change. -/
theorem displayAll_of_display {motive : κ → Prop}
    (hdisplay : ∀ {k}, motive k → ∀ message, motive (c.display message k)) (hk : motive k)
    (replies : List Reply) : motive (c.displayAll replies k) := by
  induction replies generalizing k with
  | nil => exact hk
  | cons r rs ih => exact ih (hdisplay hk r.text)

/-! ### Delivery -/

/-- In a state that `R` relates to lines, the console supplies them, but for blanks at their ends,
and then closes. -/
structure Delivers (c : Console κ) (R : List String → κ → Prop) : Prop where
  /-- Showing a message uses no line. -/
  display : ∀ {lines k}, R lines k → ∀ message, R lines (c.display message k)
  /-- Behind the last line the input has ended. -/
  ask_nil : ∀ {k}, R [] k → ∀ prompt, ∃ k', c.ask prompt k = .closed k'
  /-- The first line comes first. -/
  ask_cons : ∀ {line lines k}, R (line :: lines) k → ∀ prompt, ∃ text k',
    c.ask prompt k = .line text k' ∧ trim text.toList = trim line.toList ∧ R lines k'

namespace Delivers

variable {R : List String → κ → Prop} {lines : List String}

theorem converse (h : c.Delivers R) (hk : R lines k) :
    (c.converse s t k).session = (s.feed t lines).1 ∧
      (c.converse s t k).tree = (s.feed t lines).2 ∧ (c.converse s t k).breakdown = none := by
  induction lines generalizing s t k with
  | nil =>
    by_cases hs : s.isFinished = true
    · exact converse_feed_of_finished hs t k []
    · obtain ⟨k', hask⟩ := h.ask_nil hk s.prompt
      rw [converse_of_not_finished (Bool.eq_false_iff.2 hs), hask, Session.feed_nil]
      exact ⟨rfl, rfl, rfl⟩
  | cons line lines ih =>
    by_cases hs : s.isFinished = true
    · exact converse_feed_of_finished hs t k (line :: lines)
    · obtain ⟨text, k', hask, htext, hk'⟩ := h.ask_cons hk s.prompt
      rw [converse_of_not_finished (Bool.eq_false_iff.2 hs), hask, Session.feed_cons,
        ← Session.submit_congr htext s t]
      exact ih (displayAll_of_display h.display hk' _)

/-- **A dialogue over a console that delivers** feeds the lines to the session. -/
theorem run (h : c.Delivers R) (hk : R lines k) (s : Session) (t : Tree) :
    (c.run s t k).session = (s.feed t lines).1 ∧ (c.run s t k).tree = (s.feed t lines).2 ∧
      (c.run s t k).breakdown = none := by
  rw [Console.run]
  exact h.converse (h.display hk s.banner)

end Delivers

end Console

end Reckoner
