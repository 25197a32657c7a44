import Mathlib.Data.List.Basic
import Reckoner.Number.Notation
import Reckoner.Proofs.Number.Digits
import Reckoner.Text.Blank

/-!
# The characters of a number

The full text of a number is made of digits and a point, or it is one of two words, and a minus sign
may stand in front (`isTextChar_of_mem_chars`). So none of its characters is blank, and none is the
sign of equality that stands between an expression and its value.
-/

namespace Reckoner.Number

open Text

/-- Whether the character can stand in the full text of a number. -/
def isTextChar (c : Char) : Bool := c.isDigit || "-.InfinityNaN".toList.contains c

theorem isTextChar_of_isDigit {c : Char} (h : c.isDigit = true) : isTextChar c = true := by
  rw [isTextChar, h, Bool.true_or]

theorem Decimal.isTextChar_of_mem_chars {d : Decimal} {c : Char} (hc : c ∈ d.chars) :
    isTextChar c = true := by
  obtain ⟨whole, part, happend, -, -, hchars⟩ := d.exists_chars_eq
  have hdigits : ∀ c ∈ whole ++ part, isTextChar c = true := fun c hc =>
    isTextChar_of_isDigit (isDigit_of_mem_padded (happend ▸ hc))
  rw [hchars, List.mem_append] at hc
  rcases hc with hc | hc
  · exact hdigits c (List.mem_append_left _ hc)
  · rcases mem_fraction hc with rfl | hc
    · decide
    · exact hdigits c (List.mem_append_right _ hc)

theorem isTextChar_of_mem_withSign {negative : Bool} {cs : List Char}
    (h : ∀ c ∈ cs, isTextChar c = true) {c : Char} (hc : c ∈ withSign negative cs) :
    isTextChar c = true := by
  rw [withSign] at hc
  split_ifs at hc
  · rw [List.mem_cons] at hc
    rcases hc with rfl | hc
    · decide
    · exact h c hc
  · exact h c hc

/-- A number whose magnitude is written with such characters has no others in its text. -/
theorem isTextChar_of_mem_charsWith {magnitude : Nat → List Char}
    (h : ∀ r, ∀ c ∈ magnitude r, isTextChar c = true) {x : Number} {c : Char}
    (hc : c ∈ x.charsWith magnitude) : isTextChar c = true := by
  cases x with
  | nan =>
    have hall : "NaN".toList.all isTextChar = true := by decide
    exact List.all_eq_true.1 hall c hc
  | infinity s =>
    have hall : "Infinity".toList.all isTextChar = true := by decide
    exact isTextChar_of_mem_withSign (List.all_eq_true.1 hall) hc
  | finite s r => exact isTextChar_of_mem_withSign (h r) hc

/-- The full text of a number has no other characters. -/
theorem isTextChar_of_mem_chars {x : Number} {c : Char} (hc : c ∈ x.chars) :
    isTextChar c = true :=
  isTextChar_of_mem_charsWith (fun _ _ => Decimal.isTextChar_of_mem_chars) hc

theorem toNat_of_isDigit {c : Char} (h : c.isDigit = true) : 48 ≤ c.toNat ∧ c.toNat ≤ 57 := by
  rw [Char.isDigit, Bool.and_eq_true, decide_eq_true_eq, decide_eq_true_eq] at h
  exact h

theorem isBlank_of_isDigit {c : Char} (h : c.isDigit = true) : isBlank c = false := by
  have hrange := toNat_of_isDigit h
  simp only [isBlank, Bool.or_eq_false_iff, Bool.and_eq_false_iff, beq_eq_false_iff_ne,
    decide_eq_false_iff_not]
  omega

/-- No character of the full text of a number is blank. -/
theorem isBlank_of_mem_chars {x : Number} {c : Char} (hc : c ∈ x.chars) : isBlank c = false := by
  have htext := isTextChar_of_mem_chars hc
  rw [isTextChar, Bool.or_eq_true, List.contains_iff_mem] at htext
  rcases htext with hdigit | hmem
  · exact isBlank_of_isDigit hdigit
  · have hall : "-.InfinityNaN".toList.all (!isBlank ·) = true := by decide
    exact (Bool.not_eq_true' _).mp (List.all_eq_true.mp hall c hmem)

/-- None is a sign of equality. -/
theorem equals_not_mem_chars (x : Number) : '=' ∉ x.chars := by
  intro hc
  have htext := isTextChar_of_mem_chars hc
  revert htext
  decide

end Reckoner.Number
