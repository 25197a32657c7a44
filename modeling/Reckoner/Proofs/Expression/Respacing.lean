import Reckoner.Proofs.Expression.Spacing
import Reckoner.Proofs.Text.Unwords

/-!
# Regular spacing moves blanks only

Whatever the text, its spaced form has the same characters in the same order, blanks apart
(`unblanked_spaced`), and no blanks but single spaces between other characters
(`blank_spaced`). It is made from the characters that are not blank and from nothing else, so two
texts have the same spaced form exactly if they are the same without their blanks, and spacing a
text twice is spacing it once.
-/

namespace Reckoner.Expression

open Text

/-- The spaced form is made from what is not blank. -/
theorem spaced_congr {cs ds : List Char} (h : unblanked cs = unblanked ds) :
    spaced cs = spaced ds := by
  have hspread : spread false (unblanked cs) = spread false (unblanked ds) := by rw [h]
  exact congrArg (fun es => unwords (words es)) hspread

/-- Two texts have the same spaced form exactly if they differ in their blanks only. -/
theorem spaced_eq_iff {cs ds : List Char} :
    spaced cs = spaced ds ↔ unblanked cs = unblanked ds := by
  refine ⟨fun h => ?_, spaced_congr⟩
  rw [← unblanked_spaced cs, h, unblanked_spaced]

@[simp]
theorem spaced_spaced (cs : List Char) : spaced (spaced cs) = spaced cs :=
  spaced_congr (unblanked_spaced cs)

/-- A spaced form is tidy, if it is not empty. -/
theorem tidy_spaced {cs : List Char} (h : spaced cs ≠ []) : Tidy (spaced cs) := by
  refine tidy_unwords (fun hwords => h ?_) fun w hw => isWord_of_mem_words hw
  rw [spaced, hwords]
  rfl

/-- Its blanks are single spaces between other characters. -/
theorem blank_spaced {cs as bs : List Char} {c : Char} (h : spaced cs = as ++ c :: bs)
    (hc : isBlank c = true) : c = ' ' ∧ (∃ a, as.getLast? = some a ∧ isBlank a = false) ∧
      ∃ b, bs.head? = some b ∧ isBlank b = false := by
  have hne : spaced cs ≠ [] := by
    rw [h]
    exact List.append_ne_nil_of_right_ne_nil as (List.cons_ne_nil c bs)
  have htidy := tidy_spaced hne
  rw [h] at htidy
  exact htidy.between hc

/-- **Regular spacing moves blanks only.** The spaced form of any text has the characters of the
text that are not blank, in their order. Every blank in it is a space between two characters that
are not blank. Two texts have the same spaced form exactly if they have the same characters that are
not blank, and the spaced form of a spaced form is that form. -/
theorem spacedText_moves_blanks (s : String) :
    unblanked (spacedText s).toList = unblanked s.toList ∧
    (∀ as c bs, (spacedText s).toList = as ++ c :: bs → isBlank c = true →
      c = ' ' ∧ (∃ a, as.getLast? = some a ∧ isBlank a = false) ∧
        ∃ b, bs.head? = some b ∧ isBlank b = false) ∧
    (∀ s', spacedText s = spacedText s' ↔ unblanked s.toList = unblanked s'.toList) ∧
    spacedText (spacedText s) = spacedText s := by
  have htext (s : String) : (spacedText s).toList = spaced s.toList := String.toList_ofList
  refine ⟨?_, fun as c bs h hc => ?_, fun s' => ?_, ?_⟩
  · rw [htext, unblanked_spaced]
  · exact blank_spaced ((htext s).symm.trans h) hc
  · rw [← String.toList_inj, htext, htext, spaced_eq_iff]
  · rw [← String.toList_inj, htext, htext, spaced_spaced]

/-- Three stars, then two signs and an operator behind blanks of two kinds: no expression, but it
has a spaced form, and the blank behind the first two stars has other characters on either side. -/
theorem spacedText_moves_blanks_stars :
    let s := "+***-- \u2003/*"
    (spacedText s).toList = "+ **".toList ++ ' ' :: "* -- / *".toList ∧ isBlank ' ' = true ∧
      (∃ a, "+ **".toList.getLast? = some a ∧ isBlank a = false) ∧
      (∃ b, "* -- / *".toList.head? = some b ∧ isBlank b = false) ∧
      spacedText s = spacedText "+ * * *--/*" ∧ spacedText (spacedText s) = spacedText s := by
  intro s
  have hs : (spacedText s).toList = "+ **".toList ++ ' ' :: "* -- / *".toList := by decide +kernel
  have hsame : unblanked s.toList = unblanked "+ * * *--/*".toList := by decide +kernel
  obtain ⟨-, hbetween, hsame_iff, htwice⟩ := spacedText_moves_blanks s
  obtain ⟨-, hbefore, hbehind⟩ := hbetween _ ' ' _ hs isBlank_space
  exact ⟨hs, isBlank_space, hbefore, hbehind, (hsame_iff _).mpr hsame, htwice⟩

end Reckoner.Expression
