import Mathlib.Algebra.Order.Field.Power
import Mathlib.Algebra.Order.Ring.Rat
import Mathlib.Tactic.FieldSimp
import Mathlib.Tactic.Linarith
import Mathlib.Tactic.LinearCombination
import Mathlib.Tactic.Positivity
import Mathlib.Tactic.Ring
import Reckoner.Number.Arithmetic
import Reckoner.Number.Notation
import Reckoner.Proofs.Number.Bounds
import Reckoner.Proofs.Number.Digits
import Reckoner.Proofs.Number.Shortest

/-!
# Exact values and the decimals nearest to them

A finite number stands for a rational number (`toRat`), and to round it to a decimal is to look for
the multiple of a power of ten that is nearest to it, the even one if there are two (`IsNearest`).
Such multiples keep the order of what is rounded (`IsNearest.mono`), and rounding does not pass over
a multiple (`IsNearest.le_of_le`); so texts with steps of different sizes keep the order where some
multiple of both lies between them.

The fixed decimal of a magnitude is the nearest with its places (`isNearest_fixed`), and the decimal
in exponent form is the nearest with its significant digits (`isNearest_scientific`).
-/

namespace Reckoner.Number

variable {step q q' d d' : ℚ} {rank : Nat}

/-! ### Exact values -/

/-- The magnitude of a rank. -/
def magnitude (rank : Nat) : ℚ := units rank / unitsPerOne

/-- A magnitude with a sign. -/
def signed (negative : Bool) (q : ℚ) : ℚ := if negative then -q else q

/-- The exact value of a finite number. -/
def toRat : Number → ℚ
  | .finite s r => signed s (magnitude r)
  | _ => 0

theorem unitsPerOne_cast_pos : (0 : ℚ) < unitsPerOne := Nat.cast_pos.2 unitsPerOne_pos

theorem strictMono_magnitude : StrictMono magnitude := fun _ _ h =>
  div_lt_div_of_pos_right (Nat.cast_lt.2 (strictMono_units h)) unitsPerOne_cast_pos

@[simp]
theorem magnitude_zero : magnitude 0 = 0 := by
  rw [magnitude, units_of_lt leadingBit_pos, Nat.cast_zero, zero_div]

theorem magnitude_nonneg (rank : Nat) : 0 ≤ magnitude rank :=
  magnitude_zero ▸ strictMono_magnitude.monotone (Nat.zero_le rank)

theorem abs_signed (negative : Bool) (q : ℚ) : |signed negative q| = |q| := by
  cases negative
  · rfl
  · exact abs_neg q

/-- The exact value of a number without its sign. -/
theorem abs_toRat_finite (s : Bool) (r : Fin finiteCount) :
    |(finite s r).toRat| = magnitude r := by
  rw [toRat, abs_signed, abs_of_nonneg (magnitude_nonneg r)]

/-! ### The nearest multiple -/

/-- `d` is the multiple of `step` that is nearest to `q`, the even one of two that are equally
near. -/
def IsNearest (step q d : ℚ) : Prop :=
  ∃ n : ℤ, d = n * step ∧ 2 * |q - d| ≤ step ∧ (2 * |q - d| = step → Even n)

/-- Of two multiples one is at least a step greater. -/
theorem add_one_mul_le (hstep : 0 < step) {m n : ℤ} (h : m * step < n * step) :
    ((m : ℚ) + 1) * step ≤ n * step := by
  have hlt : m + 1 ≤ n := Int.cast_lt.1 (lt_of_mul_lt_mul_right h hstep.le)
  exact mul_le_mul_of_nonneg_right (by exact_mod_cast hlt) hstep.le

namespace IsNearest

theorem neg (h : IsNearest step q d) : IsNearest step (-q) (-d) := by
  obtain ⟨n, rfl, hnear, heven⟩ := h
  have habs : |-q - -(n * step)| = |q - n * step| := by rw [← abs_neg, neg_sub_neg, neg_sub]
  refine ⟨-n, ?_, ?_, ?_⟩
  · rw [Int.cast_neg, neg_mul]
  · rwa [habs]
  · rw [habs]
    exact fun htie => (heven htie).neg

theorem signed (s : Bool) (h : IsNearest step q d) :
    IsNearest step (signed s q) (Number.signed s d) := by
  cases s
  · exact h
  · exact h.neg

/-- In other units. -/
theorem mul_right {c : ℚ} (hc : 0 < c) (h : IsNearest step q d) :
    IsNearest (step * c) (q * c) (d * c) := by
  obtain ⟨n, rfl, hnear, heven⟩ := h
  have habs : 2 * |q * c - n * step * c| = 2 * |q - n * step| * c := by
    rw [← sub_mul, abs_mul, abs_of_pos hc, mul_assoc]
  refine ⟨n, mul_assoc _ _ _, ?_, ?_⟩
  · rw [habs]
    exact mul_le_mul_of_nonneg_right hnear hc.le
  · rw [habs]
    exact fun htie => heven (mul_right_cancel₀ hc.ne' htie)

/-- What is no greater than a multiple is not rounded to a greater one. -/
theorem le_of_le (hstep : 0 < step) (h : IsNearest step q d) {m : ℤ} (hq : q ≤ m * step) :
    d ≤ m * step := by
  obtain ⟨n, rfl, hnear, -⟩ := h
  by_contra hlt
  have hnext := add_one_mul_le hstep (not_le.1 hlt)
  have hlow := neg_le_abs (q - n * step)
  linarith

/-- What is no less than a multiple is not rounded to a smaller one. -/
theorem ge_of_ge (hstep : 0 < step) (h : IsNearest step q d) {m : ℤ} (hq : m * step ≤ q) :
    m * step ≤ d := by
  have hneg : -q ≤ (-m : ℤ) * step := by
    rw [Int.cast_neg, neg_mul]
    exact neg_le_neg hq
  have hle := h.neg.le_of_le hstep hneg
  rw [Int.cast_neg, neg_mul] at hle
  exact neg_le_neg_iff.1 hle

/-- Rounding keeps the order. -/
theorem mono (hstep : 0 < step) (h : IsNearest step q d) (h' : IsNearest step q' d')
    (hq : q ≤ q') : d ≤ d' := by
  obtain ⟨n, rfl, hnear, heven⟩ := h
  obtain ⟨n', rfl, hnear', heven'⟩ := h'
  by_contra hlt
  have hnext := add_one_mul_le hstep (not_le.1 hlt)
  have hlow := neg_le_abs (q - n * step)
  have hhigh := le_abs_self (q' - n' * step)
  -- then both lie on the point halfway between two multiples, which is rounded to the even one
  have htie : 2 * |q - n * step| = step := le_antisymm hnear (by linarith)
  have htie' : 2 * |q' - n' * step| = step := le_antisymm hnear' (by linarith)
  have heq : (n : ℚ) * step = (n' + 1 : ℤ) * step := by
    rw [Int.cast_add, Int.cast_one]
    linarith
  have hint : n = n' + 1 := Int.cast_injective (mul_right_cancel₀ hstep.ne' heq)
  have hn := heven htie
  have hn' := heven' htie'
  rw [hint, Int.even_add_one] at hn
  exact hn hn'

end IsNearest

/-! ### Powers of ten -/

section Powers

variable {k j : ℤ}

theorem zpow_ten_pos (k : ℤ) : (0 : ℚ) < 10 ^ k := zpow_pos (by norm_num) k

/-- A power of ten is a multiple of every smaller one. -/
theorem exists_zpow_eq (h : k ≤ j) : ∃ m : ℤ, (10 : ℚ) ^ j = m * 10 ^ k := by
  obtain ⟨n, rfl⟩ := Int.le.dest h
  refine ⟨10 ^ n, ?_⟩
  rw [zpow_add₀ (by norm_num), zpow_natCast, mul_comm, Int.cast_pow, Int.cast_ofNat]

theorem zpow_le_zpow_iff : (10 : ℚ) ^ k ≤ 10 ^ j ↔ k ≤ j := zpow_le_zpow_iff_right₀ (by norm_num)

theorem zpow_lt_zpow_iff : (10 : ℚ) ^ k < 10 ^ j ↔ k < j := zpow_lt_zpow_iff_right₀ (by norm_num)

namespace IsNearest

/-- Rounding does not pass a power of ten that is a multiple of the step. -/
theorem le_zpow (h : IsNearest (10 ^ k) q d) (hkj : k ≤ j) (hq : q ≤ 10 ^ j) : d ≤ 10 ^ j := by
  obtain ⟨m, hm⟩ := exists_zpow_eq hkj
  rw [hm] at hq ⊢
  exact h.le_of_le (zpow_ten_pos k) hq

theorem zpow_le (h : IsNearest (10 ^ k) q d) (hkj : k ≤ j) (hq : 10 ^ j ≤ q) : 10 ^ j ≤ d := by
  obtain ⟨m, hm⟩ := exists_zpow_eq hkj
  rw [hm] at hq ⊢
  exact h.ge_of_ge (zpow_ten_pos k) hq

theorem nonneg (h : IsNearest (10 ^ k) q d) (hq : 0 ≤ q) : 0 ≤ d := by
  have hge := h.ge_of_ge (zpow_ten_pos k) (m := 0)
  rw [Int.cast_zero, zero_mul] at hge
  exact hge hq

end IsNearest

end Powers

/-! ### Rounding quotients -/

/-- The integer that a quotient rounds to is the nearest. -/
theorem isNearest_roundHalfEven (num : Nat) {den : Nat} (hden : 0 < den) :
    IsNearest 1 (num / den) (roundHalfEven num den) := by
  obtain ⟨⟨hlow, hhigh⟩, heven⟩ := roundHalfEven_spec num hden
  generalize roundHalfEven num den = n at *
  have hpos : (0 : ℚ) < den := Nat.cast_pos.2 hden
  obtain ⟨q, hq⟩ : ∃ q : ℚ, q = num / den := ⟨_, rfl⟩
  have hnum : (num : ℚ) = q * den := by rw [hq, div_mul_cancel₀ _ hpos.ne']
  rw [← hq]
  have hbelow : 2 * ((n : ℚ) - q) ≤ 1 := by
    refine le_of_mul_le_mul_right ?_ hpos
    have hcast : (2 * n * den : ℚ) ≤ 2 * num + den := by exact_mod_cast hlow
    linarith
  have habove : 2 * (q - n) ≤ 1 := by
    refine le_of_mul_le_mul_right ?_ hpos
    have hcast : (2 * num : ℚ) ≤ (2 * n + 1) * den := by exact_mod_cast hhigh
    linarith
  refine ⟨n, ?_, ?_, fun htie => ?_⟩
  · rw [Int.cast_natCast, mul_one]
  · rcases abs_cases (q - n) with ⟨habs, -⟩ | ⟨habs, -⟩ <;> linarith
  · refine (Int.even_coe_nat n).2 (Nat.even_iff.2 (heven ?_))
    rcases abs_cases (q - n) with ⟨habs, -⟩ | ⟨habs, -⟩
    · right
      have hcast : (2 * num : ℚ) = (2 * n + 1) * den := by
        rw [hnum, ← htie, habs]
        ring
      exact_mod_cast hcast
    · left
      have hcast : (2 * n * den : ℚ) = 2 * num + den := by
        rw [habs] at htie
        rw [hnum]
        linear_combination (den : ℚ) * htie
      exact_mod_cast hcast

/-- The same in steps of any size. -/
theorem isNearest_roundHalfEven_mul (num : Nat) {den : Nat} (hden : 0 < den) (hstep : 0 < step) :
    IsNearest step (num / den * step) (roundHalfEven num den * step) := by
  have h := (isNearest_roundHalfEven num hden).mul_right hstep
  rwa [one_mul] at h

/-! ### Fixed places -/

/-- The value of a decimal. -/
def Decimal.value (d : Decimal) : ℚ := d.digits / 10 ^ d.places

/-- The fixed decimal is the nearest with its places. -/
theorem isNearest_fixed (places rank : Nat) :
    IsNearest (10 ^ (-places : ℤ)) (magnitude rank) (fixed places rank).value := by
  have h := isNearest_roundHalfEven_mul (units rank * 10 ^ places) unitsPerOne_pos
    (zpow_ten_pos (-places))
  have hquot : (units rank * 10 ^ places : Nat) / (unitsPerOne : ℚ) * 10 ^ (-places : ℤ) =
      magnitude rank := by
    rw [zpow_neg, zpow_natCast, magnitude, Nat.cast_mul, Nat.cast_pow, Nat.cast_ofNat,
      div_mul_eq_mul_div, mul_inv_cancel_right₀ (pow_ne_zero places (by norm_num))]
  rw [hquot] at h
  simp only [Decimal.value, fixed, Nat.pow_eq]
  rwa [div_eq_mul_inv, ← zpow_natCast, ← zpow_neg]

/-! ### Significant digits -/

/-- The value of a decimal in exponent form with `extra` digits behind the first. -/
def Scientific.value (extra : Nat) (d : Scientific) : ℚ := d.digits * 10 ^ (d.exponent - extra)

/-- The magnitude of a rank in steps of `10 ^ -finestPlaces`. -/
theorem magnitude_eq (rank : Nat) :
    magnitude rank = (2 * units rank * halfUnit : Nat) * 10 ^ (-finestPlaces : ℤ) := by
  have hpow : (10 ^ finestPlaces : ℚ) = 2 * unitsPerOne * halfUnit := by
    exact_mod_cast pow_finestPlaces
  have hhalf : (halfUnit : ℚ) ≠ 0 := Nat.cast_ne_zero.2 halfUnit_pos.ne'
  have hone : (unitsPerOne : ℚ) ≠ 0 := unitsPerOne_cast_pos.ne'
  rw [zpow_neg, zpow_natCast, hpow, magnitude, Nat.cast_mul, Nat.cast_mul, Nat.cast_ofNat]
  generalize (unitsPerOne : ℚ) = one at *
  generalize (halfUnit : ℚ) = half at *
  field_simp

/-- Rounded digits with the exponent of the first of them. Digits that were rounded up to a power of
ten are one too many, and the exponent is the next. -/
def carry (extra n : Nat) (e : ℤ) : Scientific :=
  if n = 10 ^ (extra + 1) then ⟨10 ^ extra, e + 1⟩ else ⟨n, e⟩

section Carry

variable {extra k n value : Nat}

theorem value_carry (extra n : Nat) (e : ℤ) :
    (carry extra n e).value extra = n * 10 ^ (e - extra) := by
  rw [carry]
  split_ifs with h
  · rw [Scientific.value, h, Nat.cast_pow, Nat.cast_pow, Nat.cast_ofNat, pow_succ, mul_assoc,
      ← zpow_one_add₀ (by norm_num : (10 : ℚ) ≠ 0)]
    congr 2
    ring
  · rfl

theorem digits_carry (hlow : 10 ^ extra ≤ n) (hhigh : n ≤ 10 ^ (extra + 1)) (e : ℤ) :
    10 ^ extra ≤ (carry extra n e).digits ∧ (carry extra n e).digits < 10 ^ (extra + 1) := by
  rw [carry]
  split_ifs with h
  · exact ⟨le_rfl, Nat.pow_lt_pow_succ (by decide)⟩
  · exact ⟨hlow, lt_of_le_of_ne hhigh h⟩

/-- A number of `extra + k + 1` digits without the last `k`, rounded. -/
theorem roundHalfEven_pow_mem (hlow : 10 ^ (extra + k) ≤ value)
    (hhigh : value < 10 ^ (extra + k + 1)) :
    10 ^ extra ≤ roundHalfEven value (10 ^ k) ∧
      roundHalfEven value (10 ^ k) ≤ 10 ^ (extra + 1) := by
  have hpos : 0 < 10 ^ k := Nat.pow_pos (by decide)
  constructor
  · calc 10 ^ extra ≤ value / 10 ^ k := by rwa [Nat.le_div_iff_mul_le hpos, ← Nat.pow_add]
      _ ≤ roundHalfEven value (10 ^ k) := (roundHalfEven_mem value _).1
  · refine roundHalfEven_le hpos (hhigh.le.trans_eq ?_)
    rw [← Nat.pow_add, Nat.add_right_comm]

/-- A magnitude has digits enough to leave out those behind the significant ones. -/
theorem exists_scientific_eq (hrank : 0 < rank) (hextra : 10 ^ extra ≤ halfUnit) :
    ∃ value k : Nat, magnitude rank = value * 10 ^ (-finestPlaces : ℤ) ∧
      10 ^ (extra + k) ≤ value ∧ value < 10 ^ (extra + k + 1) ∧
      scientific extra rank =
        carry extra (roundHalfEven value (10 ^ k)) ((extra + k : Nat) - finestPlaces) := by
  have hunits : 0 < units rank := by
    rw [← units_of_lt leadingBit_pos]
    exact strictMono_units hrank
  have hvalue : halfUnit ≤ 2 * units rank * halfUnit := Nat.le_mul_of_pos_left _ (by omega)
  rw [magnitude_eq rank]
  simp only [scientific, carry, Nat.pow_eq]
  generalize 2 * units rank * halfUnit = value at *
  obtain ⟨hlow, hhigh⟩ := pow_length_toDigits (halfUnit_pos.trans_le hvalue)
  generalize (Nat.toDigits 10 value).length = figures at *
  obtain ⟨k, rfl⟩ : ∃ k, figures = extra + k + 1 := by
    have hlt : 10 ^ extra < 10 ^ figures := (hextra.trans hvalue).trans_lt hhigh
    exact Nat.exists_eq_add_of_lt ((Nat.pow_lt_pow_iff_right (by decide)).1 hlt)
  refine ⟨value, k, rfl, hlow, hhigh, ?_⟩
  rw [Nat.add_sub_cancel, Nat.add_sub_cancel_left, Nat.cast_succ, add_sub_cancel_right]

end Carry

/-- The decimal in exponent form has its significant digits and is the nearest with them; its step
is that of the first digit of the magnitude, also where the magnitude rounds up to a power of
ten. -/
theorem isNearest_scientific {extra rank : Nat} (hrank : 0 < rank)
    (hextra : 10 ^ extra ≤ halfUnit) :
    (10 ^ extra ≤ (scientific extra rank).digits ∧
      (scientific extra rank).digits < 10 ^ (extra + 1)) ∧
    ∃ e : ℤ, 10 ^ e ≤ magnitude rank ∧ magnitude rank < 10 ^ (e + 1) ∧
      IsNearest (10 ^ (e - extra)) (magnitude rank) ((scientific extra rank).value extra) := by
  obtain ⟨value, k, hvalue, hlow, hhigh, hscientific⟩ := exists_scientific_eq hrank hextra
  obtain ⟨hdigits, hdigits'⟩ := roundHalfEven_pow_mem hlow hhigh
  rw [hscientific, hvalue, value_carry]
  have hten : (10 : ℚ) ≠ 0 := by norm_num
  have hfinest := zpow_ten_pos (-finestPlaces)
  refine ⟨digits_carry hdigits hdigits' _, (extra + k : Nat) - finestPlaces, ?_, ?_, ?_⟩
  · rw [sub_eq_add_neg, zpow_add₀ hten, zpow_natCast]
    exact mul_le_mul_of_nonneg_right (by exact_mod_cast hlow) hfinest.le
  · rw [sub_add_eq_add_sub, sub_eq_add_neg, zpow_add₀ hten, ← Nat.cast_succ, zpow_natCast]
    exact mul_lt_mul_of_pos_right (by exact_mod_cast hhigh) hfinest
  · -- the last `k` digits and the finest places make the step
    have hexponent : ((extra + k : Nat) - finestPlaces - extra : ℤ) = k + -finestPlaces := by
      rw [Nat.cast_add]
      ring
    have hstep : (10 : ℚ) ^ ((extra + k : Nat) - finestPlaces - extra : ℤ) =
        10 ^ k * 10 ^ (-finestPlaces : ℤ) := by
      rw [hexponent, zpow_add₀ hten, zpow_natCast]
    have hquot : (value : ℚ) / (10 ^ k : Nat) * (10 ^ k * 10 ^ (-finestPlaces : ℤ)) =
        value * 10 ^ (-finestPlaces : ℤ) := by
      rw [Nat.cast_pow, Nat.cast_ofNat, ← mul_assoc, div_mul_cancel₀ _ (pow_ne_zero k hten)]
    rw [hstep, ← hquot]
    exact isNearest_roundHalfEven_mul value (Nat.pow_pos (by decide))
      (mul_pos (by positivity) hfinest)

end Reckoner.Number
