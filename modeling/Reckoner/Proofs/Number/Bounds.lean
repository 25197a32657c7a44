import Reckoner.Number.Arithmetic
import Reckoner.Number.Notation
import Reckoner.Proofs.Number.Rounding

/-!
# How large results can be

A number is `AtMost k` if it is not negative and no greater than `2 ^ k`. Rounding respects such
bounds because a power of two is a number itself (`nearestRank_le`), so the bound for a sum, a
product or a quotient is that of the exact result. The bound says how many digits a number has in
front of the point, and with the places behind it how long the text of the number is
(`AtMost.length_fixedText_le`).
-/

namespace Reckoner.Number

variable {num den rank j k : Nat} {x y : Number}

/-! ### Rounding -/

/-- A quotient that is no greater than a magnitude is not rounded to a greater one. -/
theorem nearestRank_le (hden : 0 < den) (h : num ≤ units rank * den) :
    nearestRank num den ≤ rank := by
  by_contra hlt
  -- a greater rank would have the point halfway below it beyond the magnitude
  have hlow := (roundsTo_nearestRank num hden).low
  have hle : units rank ≤ units (nearestRank num den - 1) := strictMono_units.monotone (by omega)
  have hlt : units rank < units (nearestRank num den) := strictMono_units (by omega)
  have hsum : (units rank + units rank) * den <
      (units (nearestRank num den - 1) + units (nearestRank num den)) * den :=
    Nat.mul_lt_mul_of_pos_right (Nat.add_lt_add_of_le_of_lt hle hlt) hden
  rw [Nat.add_mul] at hsum
  omega

/-- The integer nearest to a quotient is no greater than an integer that the quotient is not
greater than. -/
theorem roundHalfEven_le {bound : Nat} (hden : 0 < den) (h : num ≤ bound * den) :
    roundHalfEven num den ≤ bound := by
  by_contra hlt
  have hlow := (roundHalfEven_spec num hden).1.1
  have hnext : 2 * (bound + 1) * den ≤ 2 * roundHalfEven num den * den :=
    Nat.mul_le_mul_right den (Nat.mul_le_mul_left 2 (by omega))
  have hprod : 2 * (bound + 1) * den = 2 * (bound * den) + 2 * den := by ring
  omega

/-- The rank of a power of two. -/
def powerRank (k : Nat) : Nat := (1023 + k) * leadingBit

theorem unitsPerOne_pos : 0 < unitsPerOne := by decide +kernel

theorem units_powerRank (k : Nat) : units (powerRank k) = 2 ^ k * unitsPerOne := by
  have hone : unitsPerOne = leadingBit * 2 ^ 1022 := by decide +kernel
  have hrank : powerRank k = (1022 + k + 1) * leadingBit + 0 := by rw [powerRank]; ring
  have hpow (e : Nat) : (leadingBit + 0) * 2 ^ (e + k) = 2 ^ k * (leadingBit * 2 ^ e) := by ring
  rw [hrank, units_add _ leadingBit_pos, hone, hpow]

/-! ### Bounds -/

/-- The number is not negative and no greater than a power of two. -/
def AtMost (k : Nat) (x : Number) : Prop :=
  ∃ r : Fin finiteCount, x = .finite false r ∧ units r ≤ 2 ^ k * unitsPerOne

theorem atMost_ofUnits (hk : k ≤ 1023) (hden : 0 < den) (h : num ≤ 2 ^ k * unitsPerOne * den) :
    AtMost k (ofUnits false num den) := by
  rw [← units_powerRank] at h
  have hrank : nearestRank num den ≤ powerRank k := nearestRank_le hden h
  have hlt : nearestRank num den < finiteCount := by
    calc nearestRank num den ≤ (1023 + k) * leadingBit := hrank
      _ ≤ 2046 * leadingBit := Nat.mul_le_mul_right _ (by omega)
      _ < finiteCount := by decide
  refine ⟨⟨nearestRank num den, hlt⟩, ofRank_of_lt hlt, ?_⟩
  rw [← units_powerRank]
  exact strictMono_units.monotone hrank

theorem atMost_ofNat (hk : k ≤ 1023) {n : Nat} (h : n ≤ 2 ^ k) : AtMost k (ofNat n) := by
  rw [ofNat, ofRatio]
  refine atMost_ofUnits hk Nat.one_pos ?_
  rw [Nat.mul_one]
  exact Nat.mul_le_mul_right unitsPerOne h

namespace AtMost

theorem add (hx : AtMost k x) (hy : AtMost k y) (hk : k + 1 ≤ 1023) :
    AtMost (k + 1) (x.add y) := by
  obtain ⟨m, rfl, hm⟩ := hx
  obtain ⟨n, rfl, hn⟩ := hy
  have hsum : (units m : Int) + units n = (units m + units n : Nat) := (Int.natCast_add _ _).symm
  have hle : units m + units n ≤ 2 ^ (k + 1) * unitsPerOne * 1 := by
    calc units m + units n ≤ 2 ^ k * unitsPerOne + 2 ^ k * unitsPerOne := Nat.add_le_add hm hn
      _ = 2 ^ (k + 1) * unitsPerOne * 1 := by ring
  show AtMost (k + 1) (ofSignedUnits false ((units m : Int) + units n))
  rw [hsum, ofSignedUnits]
  split_ifs with hzero
  · exact ⟨⟨0, by decide⟩, rfl, Nat.zero_le _⟩
  · rw [decide_eq_false (Int.not_lt.2 (Int.natCast_nonneg _)), Int.natAbs_natCast]
    exact atMost_ofUnits hk Nat.one_pos hle

theorem mul (hx : AtMost j x) (hy : AtMost k y) (hk : j + k ≤ 1023) :
    AtMost (j + k) (x.mul y) := by
  obtain ⟨m, rfl, hm⟩ := hx
  obtain ⟨n, rfl, hn⟩ := hy
  refine atMost_ofUnits hk unitsPerOne_pos ?_
  calc units m * units n ≤ 2 ^ j * unitsPerOne * (2 ^ k * unitsPerOne) := Nat.mul_le_mul hm hn
    _ = 2 ^ (j + k) * unitsPerOne * unitsPerOne := by ring

/-- A quotient by a number that is not less than one. -/
theorem div (hx : AtMost k x) (hk : k ≤ 1023) {n : Fin finiteCount}
    (hn : unitsPerOne ≤ units n) : AtMost k (x.div (.finite false n)) := by
  obtain ⟨m, rfl, hm⟩ := hx
  have hpos : 0 < units n := unitsPerOne_pos.trans_le hn
  have hne : n.val ≠ 0 := by
    intro hzero
    rw [hzero] at hpos
    exact absurd hpos (by decide)
  rw [Number.div, if_neg hne]
  refine atMost_ofUnits hk hpos ?_
  exact Nat.mul_le_mul hm hn

end AtMost

/-! ### Texts -/

/-- The text of a decimal of which all digits, those behind the point included, are known to be at
most `m`. -/
theorem Decimal.length_chars_le {d : Decimal} {m : Nat} (hdigits : d.digits < 10 ^ m)
    (hplaces : d.places < m) : d.chars.length ≤ m + 1 := by
  have hlength : (Nat.toDigits 10 d.digits).length ≤ m :=
    (Nat.length_toDigits_le_iff (by decide) (Nat.zero_lt_of_lt hplaces)).2 hdigits
  have hpadded : ((Nat.toDigits 10 d.digits).leftpad (d.places + 1) '0').length ≤ m := by
    rw [List.length_leftpad]
    omega
  rw [Decimal.chars]
  split_ifs
  · omega
  · rw [List.length_append, List.length_cons, List.length_take, List.length_drop]
    omega

/-- A bound for a number bounds its text. -/
theorem AtMost.length_fixedText_le (h : AtMost k x) {places m : Nat}
    (hm : 2 ^ k * 10 ^ places < 10 ^ m) (hplaces : places < m) :
    (fixedText places x).toList.length ≤ m + 1 := by
  obtain ⟨r, rfl, hr⟩ := h
  have hdigits : (fixed places r).digits ≤ 2 ^ k * 10 ^ places := by
    simp only [fixed, Nat.pow_eq]
    refine roundHalfEven_le unitsPerOne_pos ?_
    calc units r * 10 ^ places
        ≤ 2 ^ k * unitsPerOne * 10 ^ places := Nat.mul_le_mul_right _ hr
      _ = 2 ^ k * 10 ^ places * unitsPerOne := by ring
  rw [fixedText, String.toList_ofList]
  exact Decimal.length_chars_le (hdigits.trans_lt hm) hplaces

end Reckoner.Number
