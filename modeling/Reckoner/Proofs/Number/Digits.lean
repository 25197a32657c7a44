import Mathlib.Algebra.Order.Ring.Nat
import Mathlib.Data.List.DropRight
import Mathlib.Tactic.SplitIfs
import Reckoner.Number.Notation
import Reckoner.Proofs.Text.Blank

/-!
# The digits of a decimal

A decimal is written as digits before the point, and what stands behind these
(`Decimal.exists_chars_eq`). Its digits are those of a natural number with zeros in front, which do
not count. Zeros at the end of the text are left out together with a point that nothing follows any
more, and that takes nothing from the digits before the point (`dropTrailingZeros_fraction`).
-/

namespace Reckoner.Number

open Text

/-! ### Before the point and behind it -/

/-- The digits of a decimal, with zeros in front so that one stands before the point. -/
def padded (d : Decimal) : List Char := (Nat.toDigits 10 d.digits).leftpad (d.places + 1) '0'

theorem lt_length_padded (d : Decimal) : d.places < (padded d).length := by
  rw [padded, List.length_leftpad]
  exact Nat.lt_of_succ_le (Nat.le_max_left _ _)

theorem isDigit_of_mem_padded {d : Decimal} {c : Char} (hc : c ∈ padded d) : c.isDigit = true := by
  rw [padded, List.leftpad, List.mem_append, List.mem_replicate] at hc
  rcases hc with ⟨-, rfl⟩ | hc
  · rfl
  · exact Nat.isDigit_of_mem_toDigits (Nat.succ_pos 9) (Nat.le_refl 10) hc

/-- Zeros in front do not count. -/
theorem ofDigitChars_padded (d : Decimal) : Nat.ofDigitChars 10 (padded d) 0 = d.digits := by
  rw [padded, List.leftpad, Nat.ofDigitChars_append, Nat.ofDigitChars_replicate_zero,
    Nat.mul_zero, Nat.ofDigitChars_toDigits (by decide) (Nat.le_refl 10)]

/-- What stands behind the digits before the point: nothing, or the point and the places. -/
def fraction : List Char → List Char
  | [] => []
  | c :: cs => '.' :: c :: cs

theorem not_mem_of_isDigit {cs : List Char} (h : ∀ c ∈ cs, c.isDigit = true) : '.' ∉ cs :=
  fun hmem => absurd (h '.' hmem) (by decide)

section Fraction

variable {part : List Char}

theorem fraction_of_ne_nil (h : part ≠ []) : fraction part = '.' :: part := by
  cases part with
  | nil => exact absurd rfl h
  | cons => rfl

theorem mem_fraction {c : Char} (hc : c ∈ fraction part) : c = '.' ∨ c ∈ part := by
  cases part with
  | nil => cases hc
  | cons => exact List.mem_cons.1 hc

theorem filter_fraction (h : ∀ c ∈ part, c.isDigit = true) :
    (fraction part).filter Char.isDigit = part := by
  cases part with
  | nil => rfl
  | cons => rw [fraction, List.filter_cons_of_neg (by decide), List.filter_eq_self.mpr h]

theorem drop_fraction (part : List Char) :
    ((fraction part).dropWhile (· != '.')).drop 1 = part := by
  cases part <;> rfl

theorem count_fraction (h : ∀ c ∈ part, c.isDigit = true) : (fraction part).count '.' ≤ 1 := by
  cases part with
  | nil => exact Nat.zero_le 1
  | cons => rw [fraction, List.count_cons_self, List.count_eq_zero.mpr (not_mem_of_isDigit h)]

end Fraction

/-- A decimal is written as digits before the point, and what stands behind these. -/
theorem Decimal.exists_chars_eq (d : Decimal) : ∃ whole part, whole ++ part = padded d ∧
    whole ≠ [] ∧ part.length = d.places ∧ d.chars = whole ++ fraction part := by
  have hlen := lt_length_padded d
  have hpart : ((padded d).drop ((padded d).length - d.places)).length = d.places := by
    rw [List.length_drop]
    omega
  refine ⟨_, _, List.take_append_drop ((padded d).length - d.places) (padded d), ?_, hpart, ?_⟩
  · rw [ne_eq, List.take_eq_nil_iff, not_or]
    exact ⟨by omega, List.ne_nil_of_length_pos (by omega)⟩
  · rw [Decimal.chars]
    cases hcs : (padded d).drop ((padded d).length - d.places) with
    | nil =>
      have h : d.places = 0 := by rw [← hpart, hcs]; rfl
      rw [if_pos h, fraction, ← hcs, List.take_append_drop, padded]
    | cons c cs =>
      have h : d.places ≠ 0 := by rw [← hpart, hcs]; exact Nat.succ_ne_zero _
      rw [if_neg h, fraction, ← hcs, padded]

/-! ### Natural numbers -/

/-- A number lies between the powers of ten that its length tells. -/
theorem pow_length_toDigits {n : Nat} (hn : 0 < n) :
    10 ^ ((Nat.toDigits 10 n).length - 1) ≤ n ∧ n < 10 ^ (Nat.toDigits 10 n).length := by
  have hpos : 0 < (Nat.toDigits 10 n).length := Nat.length_toDigits_pos
  refine ⟨?_, (Nat.length_toDigits_le_iff (by decide) hpos).1 le_rfl⟩
  rcases Nat.eq_zero_or_pos ((Nat.toDigits 10 n).length - 1) with hone | hmany
  · rw [hone]
    exact hn
  · by_contra hlt
    have hle := (Nat.length_toDigits_le_iff (by decide) hmany).2 (not_le.1 hlt)
    omega

/-- The digits of a number other than zero do not begin with a zero. -/
theorem head?_toDigits_ne {n : Nat} (hn : 0 < n) : (Nat.toDigits 10 n).head? ≠ some '0' := by
  induction n using Nat.strongRecOn with
  | ind n ih =>
    rcases Nat.lt_or_ge n 10 with hlt | hge
    · have hdigit : ∀ m < 10, 0 < m → some (Nat.digitChar m) ≠ some '0' := by decide
      rw [Nat.toDigits_of_lt_base hlt]
      exact hdigit n hlt hn
    · rw [Nat.toDigits_of_base_le (by decide) hge,
        List.head?_append_of_ne_nil _ Nat.toDigits_ne_nil]
      exact ih (n / 10) (Nat.div_lt_self hn (by decide)) (Nat.div_pos hge (by decide))

/-! ### Zeros at the end -/

section Zeros

variable {whole part : List Char}

theorem dropTrailingZeros_eq (cs : List Char) :
    dropTrailingZeros cs = (cs.rdropWhile (· == '0')).rdropWhile (· == '.') := by
  rw [dropTrailingZeros, List.rdropWhile, List.rdropWhile, List.reverse_reverse]

/-- Digits are zeros behind those up to the last one that is not zero. -/
theorem exists_eq_append_replicate (part : List Char) :
    ∃ k, part = part.rdropWhile (· == '0') ++ List.replicate k '0' := by
  have hzeros : ∀ c ∈ part.rtakeWhile (· == '0'), c = '0' := by
    intro c hc
    have hzero := List.mem_rtakeWhile_imp hc
    exact beq_iff_eq.1 hzero
  refine ⟨(part.rtakeWhile (· == '0')).length, ?_⟩
  rw [← List.eq_replicate_of_mem hzeros, List.rdropWhile_append_rtakeWhile]

theorem getLast?_rdropWhile_ne (part : List Char) :
    (part.rdropWhile (· == '0')).getLast? ≠ some '0' := by
  intro hlast
  have hne : part.rdropWhile (· == '0') ≠ [] := List.getLast?_isSome.1 (by rw [hlast]; rfl)
  rw [List.getLast?_eq_some_getLast hne, Option.some.injEq] at hlast
  exact List.rdropWhile_last_not _ _ hne (beq_iff_eq.2 hlast)

theorem rdropWhile_append_replicate (cs : List Char) (k : Nat) :
    (cs ++ List.replicate k '0').rdropWhile (· == '0') = cs.rdropWhile (· == '0') := by
  rw [List.rdropWhile, List.reverse_append, List.reverse_replicate, List.dropWhile_append_of_pos,
    List.rdropWhile]
  exact fun c hc => beq_iff_eq.2 (List.eq_of_mem_replicate hc)

/-- Digits do not end in a point. -/
theorem rdropWhile_of_isDigit {cs : List Char} (h : ∀ c ∈ cs, c.isDigit = true) :
    cs.rdropWhile (· == '.') = cs := by
  refine rdropWhile_of_getLast? fun c hc => beq_eq_false_iff_ne.2 ?_
  rintro rfl
  exact not_mem_of_isDigit h (List.mem_of_getLast? hc)

/-- Zeros at the end are dropped behind the point only, and then the point if nothing follows it. -/
theorem dropTrailingZeros_fraction (hpart : part ≠ [])
    (hdigits : ∀ c ∈ whole ++ part, c.isDigit = true) :
    dropTrailingZeros (whole ++ fraction part) =
      whole ++ fraction (part.rdropWhile (· == '0')) := by
  have hwhole : ∀ c ∈ whole, c.isDigit = true := fun c hc => hdigits c (List.mem_append_left _ hc)
  have hrest : ∀ c ∈ part.rdropWhile (· == '0'), c.isDigit = true := fun c hc =>
    hdigits c (List.mem_append_right _ ((List.rdropWhile_prefix _ _).subset hc))
  have hlast := getLast?_rdropWhile_ne part
  obtain ⟨k, hk⟩ := exists_eq_append_replicate part
  generalize part.rdropWhile (· == '0') = rest at *
  have htext : whole ++ fraction part = whole ++ '.' :: rest ++ List.replicate k '0' := by
    rw [fraction_of_ne_nil hpart, hk, List.append_assoc, List.cons_append]
  rw [dropTrailingZeros_eq, htext, rdropWhile_append_replicate]
  cases rest with
  | nil =>
    rw [List.rdropWhile_concat_neg _ _ _ (by decide), List.rdropWhile_concat_pos _ _ _ (by decide),
      rdropWhile_of_isDigit hwhole, fraction, List.append_nil]
  | cons c cs =>
    have hend : (whole ++ '.' :: c :: cs).getLast? = (c :: cs).getLast? := by
      rw [List.getLast?_append_of_ne_nil _ (List.cons_ne_nil _ _), List.getLast?_cons_cons]
    have hzero : (whole ++ '.' :: c :: cs).rdropWhile (· == '0') = whole ++ '.' :: c :: cs := by
      refine rdropWhile_of_getLast? fun d hd => beq_eq_false_iff_ne.2 ?_
      rintro rfl
      exact hlast (hend ▸ hd)
    have hpoint : (whole ++ '.' :: c :: cs).rdropWhile (· == '.') = whole ++ '.' :: c :: cs := by
      refine rdropWhile_of_getLast? fun d hd => beq_eq_false_iff_ne.2 ?_
      rintro rfl
      exact not_mem_of_isDigit hrest (List.mem_of_getLast? (hend ▸ hd))
    rw [hzero, hpoint, fraction]

end Zeros

end Reckoner.Number
