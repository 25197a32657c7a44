import Mathlib.Data.List.Basic
import Reckoner.Desk.Input
import Reckoner.Proofs.Session.Lines

/-!
# Lines typed at the desk

A desk at which lines are typed feeds them to its session (`press_typedLines`). It skips blank lines
that are not paths and leaves them in its input, so the line that is entered next has their blanks
before it; `Follows` says that nothing else is ever left there.
-/

namespace Reckoner.Desk

open Files Text

/-- Nothing is held down. -/
def Modifiers.none : Modifiers := {}

/-- The control key is held down. -/
def Modifiers.control : Modifiers := { ctrl := true }

/-- The desk after keys, each with what is held down; the session takes `elapsed` nanoseconds to
answer a line. -/
def pressAll (d : Desk) (elapsed : Nat) (keys : List (Key × Modifiers)) : Desk :=
  keys.foldl (fun d k => d.press k.1 k.2 elapsed) d

/-- The keys that type a line and enter it. -/
def typedLine (line : String) : List (Key × Modifiers) :=
  line.toList.map (fun c => (.char c, .none)) ++ [(.enter, .none)]

/-- The keys that type lines and then quit. -/
def typedLines (lines : List String) : List (Key × Modifiers) :=
  lines.flatMap typedLine ++ [(.char 'c', .control)]

/-- The desk has come to a session and a tree, and its input is as good as empty. -/
structure Follows (d : Desk) (s : Session) (t : Tree) : Prop where
  session : d.session = s
  tree : d.tree = t
  /-- Keys go to the input. -/
  helpShown : d.helpShown = false
  /-- Only blanks are left in the input. -/
  blank : AllBlank d.input
  /-- Characters are added behind them. -/
  cursor : d.input.length ≤ d.cursor

variable {d : Desk} {s : Session} {t : Tree}

/-! ### One line -/

theorem pressAll_cons (d : Desk) (elapsed : Nat) (k : Key × Modifiers)
    (keys : List (Key × Modifiers)) :
    d.pressAll elapsed (k :: keys) = (d.press k.1 k.2 elapsed).pressAll elapsed keys := rfl

theorem pressAll_append (d : Desk) (elapsed : Nat) (keys keys' : List (Key × Modifiers)) :
    d.pressAll elapsed (keys ++ keys') = (d.pressAll elapsed keys).pressAll elapsed keys' :=
  List.foldl_append

theorem press_of_helpShown (h : d.helpShown = false) (k : Key) (held : Modifiers) (elapsed : Nat) :
    d.press k held elapsed = d.pressOutsideHelp held elapsed k := by
  rw [press, h]
  rfl

theorem insertChar_of_cursor (h : d.input.length ≤ d.cursor) (c : Char) :
    d.insertChar c = { d with input := d.input ++ [c], cursor := d.cursor + 1 } := by
  rw [insertChar, Nat.min_eq_right h, List.insertIdx_length_self]

/-- Characters typed behind the input are added to it. -/
theorem pressAll_chars (hhelp : d.helpShown = false) (hcursor : d.input.length ≤ d.cursor)
    (elapsed : Nat) (cs : List Char) :
    d.pressAll elapsed (cs.map fun c => (.char c, .none)) =
      { d with input := d.input ++ cs, cursor := d.cursor + cs.length } := by
  induction cs generalizing d with
  | nil =>
    rw [List.append_nil]
    rfl
  | cons c cs ih =>
    have hpress : d.press (.char c) .none elapsed =
        { d with input := d.input ++ [c], cursor := d.cursor + 1 } := by
      rw [press_of_helpShown hhelp, ← insertChar_of_cursor hcursor]
      rfl
    have hcursor' : (d.input ++ [c]).length ≤ d.cursor + 1 := by
      rw [List.length_append, List.length_singleton]
      omega
    rw [List.map_cons, pressAll_cons, hpress, ih (by exact hhelp) hcursor']
    simp only [List.append_assoc, List.singleton_append, List.length_cons]
    rw [Nat.add_right_comm, Nat.add_assoc]

/-- A blank line that is not a path stays where it is. -/
theorem submit_of_blank (hs : d.session.isAwaitingPath = false) (hd : AllBlank d.input)
    (elapsed : Nat) : d.submit elapsed = d := by
  rw [submit, trim_eq_nil_iff.2 hd, hs]
  rfl

/-- Every other line goes to the session. -/
theorem follows_submit (hhelp : d.helpShown = false)
    (hd : d.session.isAwaitingPath = true ∨ ¬ AllBlank d.input) (elapsed : Nat) :
    (d.submit elapsed).Follows (d.session.submit d.tree (String.ofList d.input)).session
      (d.session.submit d.tree (String.ofList d.input)).tree := by
  have hcongr : d.session.submit d.tree (String.ofList (trim d.input)) =
      d.session.submit d.tree (String.ofList d.input) := by
    refine Session.submit_congr ?_ _ _
    rw [String.toList_ofList, String.toList_ofList, trim_trim]
  have hguard : (decide (trim d.input = []) && !d.session.isAwaitingPath) = false := by
    rw [Bool.and_eq_false_iff, Bool.not_eq_false', decide_eq_false_iff_not, trim_eq_nil_iff]
    exact hd.symm
  rw [submit]
  simp only [hguard, hcongr]
  exact ⟨rfl, rfl, hhelp, AllBlank.nil, Nat.le_refl 0⟩

/-- A line typed at the desk is submitted to the session. -/
theorem Follows.typedLine (h : d.Follows s t) (elapsed : Nat) (line : String) :
    (d.pressAll elapsed (typedLine line)).Follows (s.submit t line).session
      (s.submit t line).tree := by
  obtain ⟨rfl, rfl, hhelp, hblank, hcursor⟩ := h
  set d' : Desk := { d with
    input := d.input ++ line.toList, cursor := d.cursor + line.toList.length } with hd'
  have hpress : d.pressAll elapsed (Desk.typedLine line) = d'.submit elapsed := by
    rw [Desk.typedLine, pressAll_append, pressAll_chars hhelp hcursor]
    exact press_of_helpShown (by exact hhelp) _ _ _
  -- The blanks left in the input do not count for the session.
  have hline : d.session.submit d.tree (String.ofList (d.input ++ line.toList)) =
      d.session.submit d.tree line := by
    refine Session.submit_congr ?_ _ _
    rw [String.toList_ofList, trim_blank_append hblank]
  rw [hpress]
  by_cases hd : d.session.isAwaitingPath = true ∨ ¬ AllBlank d'.input
  · have hfollows := follows_submit (d := d') hhelp hd elapsed
    rw [← hline]
    exact hfollows
  · rw [not_or, not_not] at hd
    have hawaiting : d.session.isAwaitingPath = false := Bool.eq_false_iff.2 hd.1
    have hblank' : AllBlank line.toList := by
      intro c hc
      exact hd.2 c (List.mem_append_right _ hc)
    have hphase : d.session.phase ≠ .awaitingPath := by
      rw [Ne, ← Session.isAwaitingPath_iff]
      exact hd.1
    -- the desk keeps the blanks, and the session would have done nothing with them
    obtain ⟨hsession, htree⟩ := Session.submit_of_blank hphase hblank' d.tree
    rw [submit_of_blank (d := d') hawaiting hd.2, hsession, htree]
    refine ⟨rfl, rfl, hhelp, hd.2, ?_⟩
    rw [hd', List.length_append]
    exact Nat.add_le_add_right hcursor _

/-! ### All lines -/

/-- **Lines typed at a desk** are fed to its session. -/
theorem pressAll_typedLines (h : d.Follows s t) (elapsed : Nat) (lines : List String) :
    (d.pressAll elapsed (typedLines lines)).session = (s.feed t lines).1 ∧
      (d.pressAll elapsed (typedLines lines)).tree = (s.feed t lines).2 := by
  induction lines generalizing d s t with
  | nil =>
    have hquit : d.pressAll elapsed (typedLines []) = d.quit := press_of_helpShown h.helpShown _ _ _
    rw [hquit, Session.feed_nil, ← h.session, ← h.tree]
    exact ⟨rfl, rfl⟩
  | cons line lines ih =>
    have hpress : d.pressAll elapsed (typedLines (line :: lines)) =
        (d.pressAll elapsed (typedLine line)).pressAll elapsed (typedLines lines) := by
      rw [typedLines, List.flatMap_cons, List.append_assoc, pressAll_append, typedLines]
    rw [hpress, Session.feed_cons]
    exact ih (h.typedLine elapsed line)

end Reckoner.Desk
