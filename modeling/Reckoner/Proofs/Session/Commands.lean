import Mathlib
import Reckoner.Session.Command
import Reckoner.Proofs.Text.Blank

/-!
# Lines that are to be evaluated

A line without blanks around it that is no letter of a command is an expression. It asks for the
calculations exactly if it is the word `details` in either case, one space and something more
(`ofTrimmed_details`, `ofTrimmed_plain`).
-/

namespace Reckoner.Command

open Text

variable {cs w rest : List Char} {c : Char}

/-- The word that asks for the calculations, in either case. -/
def IsDetails (w : List Char) : Prop := lowerAscii w = "details".toList

theorem IsDetails.length_eq (h : IsDetails w) : w.length = 7 := by
  have h' : lowerAscii w = "details".toList := h
  calc w.length = (lowerAscii w).length := (List.length_map _).symm
    _ = 7 := by rw [h']; decide

theorem IsDetails.ne_nil (h : IsDetails w) : w ≠ [] :=
  List.ne_nil_of_length_pos (by rw [h.length_eq]; decide)

theorem IsDetails.isAlpha_of_mem (h : IsDetails w) (hc : c ∈ w) : c.isAlpha = true := by
  have hmem : c.toLower ∈ lowerAscii w := List.mem_map_of_mem hc
  have hall : "details".toList.all Char.isAlpha = true := by decide
  rw [h] at hmem
  rw [← Char.isAlpha_toLower_eq_isAlpha]
  exact List.all_eq_true.mp hall _ hmem

theorem toNat_of_isAlpha (h : c.isAlpha = true) :
    (65 ≤ c.toNat ∧ c.toNat ≤ 90) ∨ (97 ≤ c.toNat ∧ c.toNat ≤ 122) := by
  simp only [Char.isAlpha, Char.isUpper, Char.isLower, Bool.or_eq_true, Bool.and_eq_true,
    decide_eq_true_eq] at h
  exact h

theorem isBlank_of_isAlpha (h : c.isAlpha = true) : isBlank c = false := by
  have hn := toNat_of_isAlpha h
  simp only [isBlank, Bool.or_eq_false_iff, Bool.and_eq_false_iff, beq_eq_false_iff_ne,
    decide_eq_false_iff_not]
  omega

/-- No letter has the space as its small form. -/
theorem eq_space_of_toLower (h : c.toLower = ' ') : c = ' ' := by
  have hupper : ¬ c.isUpper = true := by
    intro hc
    have hlower : c.toLower.isLower = true := by
      rw [Char.isLower_toLower_eq_isAlpha, Char.isAlpha, hc, Bool.true_or]
    rw [h] at hlower
    exact absurd hlower (by decide)
  rwa [Char.toLower_eq_of_not_isUpper hupper] at h

/-- How a line begins that can ask for the calculations. -/
theorem isPrefixOf_detailsWord : detailsWord.isPrefixOf (lowerAscii cs) = true ↔
    ∃ w rest, IsDetails w ∧ cs = w ++ ' ' :: rest := by
  have hword : detailsWord = "details".toList ++ [' '] := by decide
  rw [List.isPrefixOf_iff_prefix, hword]
  constructor
  · rintro ⟨lower, h⟩
    rw [List.append_assoc, eq_comm, lowerAscii, List.map_eq_append_iff] at h
    obtain ⟨w, rest, rfl, hw, hrest⟩ := h
    obtain ⟨c, rest, rfl, hc, -⟩ := List.map_eq_cons_iff.mp hrest
    exact ⟨w, rest, hw, by rw [eq_space_of_toLower hc]⟩
  · rintro ⟨w, rest, hw, rfl⟩
    refine ⟨lowerAscii rest, ?_⟩
    have hlower : w.map Char.toLower = "details".toList := hw
    show _ = (w ++ ' ' :: rest).map Char.toLower
    rw [List.map_append, hlower, List.append_assoc]
    rfl

/-- A line that is none of the four letters is searched for the word. -/
theorem ofTrimmed_of_ne (hq : lowerAscii cs ≠ ['q']) (hh : lowerAscii cs ≠ ['h'])
    (hs : lowerAscii cs ≠ ['s']) (hc : lowerAscii cs ≠ ['c']) : ofTrimmed cs =
    if detailsWord.isPrefixOf (lowerAscii cs) && detailsWord.length < cs.length then
      .evaluate (String.ofList (trim (cs.drop detailsWord.length))) true
    else .evaluate (String.ofList cs) false := by
  rw [ofTrimmed]
  split
  · next h => exact absurd h hq
  · next h => exact absurd h hh
  · next h => exact absurd h hs
  · next h => exact absurd h hc
  · rfl

/-- A line of other than one character is to be evaluated. -/
theorem ofTrimmed_of_length (h : cs.length ≠ 1) : ofTrimmed cs =
    if detailsWord.isPrefixOf (lowerAscii cs) && detailsWord.length < cs.length then
      .evaluate (String.ofList (trim (cs.drop detailsWord.length))) true
    else .evaluate (String.ofList cs) false := by
  have hne (c : Char) : lowerAscii cs ≠ [c] := by
    intro hc
    have hlen := congrArg List.length hc
    rw [lowerAscii, List.length_map] at hlen
    exact h hlen
  exact ofTrimmed_of_ne (hne 'q') (hne 'h') (hne 's') (hne 'c')

/-- The word `details`, one space and something more ask for the calculations. -/
theorem ofTrimmed_details (hw : IsDetails w) (hrest : rest ≠ []) :
    ofTrimmed (w ++ ' ' :: rest) = .evaluate (String.ofList (trim rest)) true := by
  have hpos : 0 < rest.length := List.length_pos_iff.mpr hrest
  have hlen : (w ++ ' ' :: rest).length = 8 + rest.length := by
    rw [List.length_append, List.length_cons, hw.length_eq]
    omega
  have hword : detailsWord.length = w.length + 1 := by rw [hw.length_eq]; decide
  have hlong : detailsWord.length < (w ++ ' ' :: rest).length := by
    rw [hlen, hword, hw.length_eq]
    omega
  rw [ofTrimmed_of_length (by omega), isPrefixOf_detailsWord.mpr ⟨w, rest, hw, rfl⟩, Bool.true_and,
    if_pos (decide_eq_true hlong), hword, List.drop_append, List.drop_of_length_le (Nat.le_succ _),
    Nat.add_sub_cancel_left, List.nil_append]
  rfl

theorem not_asks (h : ∀ w rest, IsDetails w → rest ≠ [] → cs ≠ w ++ ' ' :: rest) :
    ¬ (detailsWord.isPrefixOf (lowerAscii cs) && detailsWord.length < cs.length) = true := by
  rw [Bool.and_eq_true, isPrefixOf_detailsWord, decide_eq_true_eq]
  rintro ⟨⟨w, rest, hw, rfl⟩, hlen⟩
  refine h w rest hw ?_ rfl
  rintro rfl
  rw [List.length_append, hw.length_eq] at hlen
  exact absurd hlen (by decide)

/-- Every other line is taken as it is. -/
theorem ofTrimmed_plain (h : cs.length ≠ 1)
    (hplain : ∀ w rest, IsDetails w → rest ≠ [] → cs ≠ w ++ ' ' :: rest) :
    ofTrimmed cs = .evaluate (String.ofList cs) false := by
  rw [ofTrimmed_of_length h, if_neg (not_asks hplain)]

/-- What a line is that is to be evaluated. -/
theorem ofTrimmed_eq_evaluate {e : String} {detailed : Bool}
    (h : ofTrimmed cs = .evaluate e detailed) :
    (∃ w rest, IsDetails w ∧ rest ≠ [] ∧ cs = w ++ ' ' :: rest ∧ e = String.ofList (trim rest) ∧
      detailed = true) ∨ (e = String.ofList cs ∧ detailed = false) := by
  by_cases hasks : ∃ w rest, IsDetails w ∧ rest ≠ [] ∧ cs = w ++ ' ' :: rest
  · obtain ⟨w, rest, hw, hrest, rfl⟩ := hasks
    rw [ofTrimmed_details hw hrest] at h
    cases h
    exact Or.inl ⟨w, rest, hw, hrest, rfl, rfl, rfl⟩
  · have hplain := not_asks fun w rest hw hrest hcs => hasks ⟨w, rest, hw, hrest, hcs⟩
    rw [ofTrimmed] at h
    split at h
    · cases h
    · cases h
    · cases h
    · cases h
    · rw [if_neg hplain] at h
      cases h
      exact Or.inr ⟨rfl, rfl⟩

end Reckoner.Command
