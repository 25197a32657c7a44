import Mathlib.Algebra.Order.Ring.Nat
import Mathlib.Order.Monotone.Basic
import Mathlib.Tactic.Ring
import Mathlib.Tactic.SplitIfs
import Reckoner.Number.Rounding

/-!
# Rounding finds the nearest number

Ranks list the magnitudes in increasing order (`strictMono_units`): they come in blocks within which
the magnitudes are the multiples of one spacing (`units_block`).

A quotient *rounds to* a rank if it lies between the points halfway to the magnitudes before and
behind, and on such a point only if the rank is even. A quotient rounds to one rank at most
(`RoundsTo.unique`), and `nearestRank` is that rank (`roundsTo_nearestRank`). So to read a number as
the magnitude of a rank is to find it between two points.
-/

namespace Reckoner.Number

/-! ### Blocks of magnitudes -/

/-- Whether `q` multiples of `2 ^ e` are a magnitude of the block with that spacing, or the first
one of the next block. -/
def InBlock (e q : Nat) : Prop := q ≤ 2 * leadingBit ∧ (e = 0 ∨ leadingBit ≤ q)

theorem leadingBit_pos : 0 < leadingBit := by decide

theorem units_add (e : Nat) {m : Nat} (hm : m < leadingBit) :
    units ((e + 1) * leadingBit + m) = (leadingBit + m) * 2 ^ e := by
  have hnot : ¬ (e + 1) * leadingBit + m < leadingBit := by
    rw [Nat.add_mul, Nat.one_mul]
    omega
  have hmod : ((e + 1) * leadingBit + m) % leadingBit = m := by
    rw [Nat.mul_add_mod', Nat.mod_eq_of_lt hm]
  have hdiv : ((e + 1) * leadingBit + m) / leadingBit = e + 1 := by
    rw [Nat.add_comm, Nat.add_mul_div_right _ _ leadingBit_pos, Nat.div_eq_of_lt hm, Nat.zero_add]
  rw [units, if_neg hnot, hmod, hdiv, Nat.add_sub_cancel, Nat.pow_eq]

/-- Within a block the magnitudes are the multiples of its spacing. -/
theorem units_block {e q : Nat} (h : InBlock e q) : units (e * leadingBit + q) = q * 2 ^ e := by
  obtain ⟨hq, he⟩ := h
  rcases Nat.lt_or_ge q leadingBit with hlt | hge
  · obtain rfl : e = 0 := he.resolve_right (Nat.not_le_of_lt hlt)
    rw [Nat.zero_mul, Nat.zero_add, units_of_lt hlt, Nat.pow_zero, Nat.mul_one]
  · obtain ⟨m, rfl⟩ := Nat.exists_eq_add_of_le hge
    rcases Nat.lt_or_ge m leadingBit with hm | hm
    · rw [show e * leadingBit + (leadingBit + m) = (e + 1) * leadingBit + m by ring, units_add e hm]
    · -- the first magnitude of the next block
      obtain rfl : m = leadingBit := by omega
      rw [show e * leadingBit + (leadingBit + leadingBit) = (e + 1 + 1) * leadingBit + 0 by ring,
        units_add (e + 1) leadingBit_pos]
      ring

/-- Every rank lies in a block, and not at its end. -/
theorem exists_inBlock (rank : Nat) :
    ∃ e q, rank = e * leadingBit + q ∧ q < 2 * leadingBit ∧ InBlock e q := by
  have hlt : rank % leadingBit < leadingBit := Nat.mod_lt _ leadingBit_pos
  have hdiv : leadingBit * (rank / leadingBit) + rank % leadingBit = rank :=
    Nat.div_add_mod rank leadingBit
  cases hk : rank / leadingBit with
  | zero =>
    rw [hk, Nat.mul_zero, Nat.zero_add] at hdiv
    exact ⟨0, rank, by omega, by omega, by omega, Or.inl rfl⟩
  | succ k =>
    refine ⟨k, leadingBit + rank % leadingBit, ?_, by omega, by omega, Or.inr (by omega)⟩
    rw [hk, Nat.mul_add_one, Nat.mul_comm] at hdiv
    omega

theorem strictMono_units : StrictMono units := by
  refine strictMono_nat_of_lt_succ fun rank => ?_
  obtain ⟨e, q, rfl, hq, hblock⟩ := exists_inBlock rank
  have hnext : InBlock e (q + 1) := ⟨by omega, hblock.2.imp_right fun h => by omega⟩
  rw [Nat.add_assoc, units_block hblock, units_block hnext]
  exact Nat.mul_lt_mul_of_pos_right (Nat.lt_succ_self q) (Nat.two_pow_pos e)

/-! ### The nearest integer -/

/-- The integer that a quotient rounds to is one of the two between which the quotient lies. -/
theorem roundHalfEven_mem (num den : Nat) :
    num / den ≤ roundHalfEven num den ∧ roundHalfEven num den ≤ num / den + 1 := by
  simp only [roundHalfEven]
  split_ifs <;> omega

/-- A quotient lies between the points halfway to the integers before and behind the one that it
rounds to, and on such a point only if that integer is even. -/
theorem roundHalfEven_spec (num : Nat) {den : Nat} (hden : 0 < den) :
    (2 * roundHalfEven num den * den ≤ 2 * num + den ∧
      2 * num ≤ (2 * roundHalfEven num den + 1) * den) ∧
    (2 * roundHalfEven num den * den = 2 * num + den ∨
        2 * num = (2 * roundHalfEven num den + 1) * den →
      roundHalfEven num den % 2 = 0) := by
  have hnum : num / den * den + num % den = num := Nat.div_add_mod' num den
  have hlt : num % den < den := Nat.mod_lt num hden
  simp only [roundHalfEven]
  generalize num / den = q at hnum ⊢
  generalize num % den = r at hnum hlt ⊢
  split_ifs with h
  · have hprod : 2 * (q + 1) * den = 2 * (q * den) + 2 * den := by ring
    have hprod' : (2 * (q + 1) + 1) * den = 2 * (q * den) + 3 * den := by ring
    rw [hprod, hprod']
    refine ⟨by omega, fun htie => ?_⟩
    -- only from a point halfway is the upper integer taken for being even
    have hhalf : den = 2 * r ∧ q % 2 = 1 := h.resolve_left (by omega)
    omega
  · have hprod : 2 * q * den = 2 * (q * den) := by ring
    have hprod' : (2 * q + 1) * den = 2 * (q * den) + den := by ring
    rw [hprod, hprod']
    refine ⟨by omega, fun htie => ?_⟩
    have hodd : ¬ (den = 2 * r ∧ q % 2 = 1) := fun hh => h (Or.inr hh)
    omega

/-! ### The nearest rank -/

/-- The quotient `num / den` lies between the points halfway from the magnitude of the rank to the
ones before and behind, and on such a point only if the rank is even. -/
structure RoundsTo (num den rank : Nat) : Prop where
  /-- The point halfway to the magnitude before. -/
  low : (units (rank - 1) + units rank) * den ≤ 2 * num
  /-- The point halfway to the magnitude behind. -/
  high : 2 * num ≤ (units rank + units (rank + 1)) * den
  even : (units (rank - 1) + units rank) * den = 2 * num ∨
      2 * num = (units rank + units (rank + 1)) * den → rank % 2 = 0

namespace RoundsTo

variable {num den rank rank' : Nat}

/-- The intervals of two ranks meet in one point at most, and that belongs to the even one. -/
theorem not_lt (hden : 0 < den) (h : RoundsTo num den rank) (h' : RoundsTo num den rank') :
    ¬ rank < rank' := by
  intro hlt
  have hle : units rank ≤ units (rank' - 1) := strictMono_units.monotone (by omega)
  have hle' : units (rank + 1) ≤ units rank' := strictMono_units.monotone hlt
  have hsum : (units rank + units (rank + 1)) * den ≤ (units (rank' - 1) + units rank') * den :=
    Nat.mul_le_mul_right den (Nat.add_le_add hle hle')
  have heven := h.even (Or.inr (Nat.le_antisymm h.high (hsum.trans h'.low)))
  have heven' := h'.even (Or.inl (Nat.le_antisymm h'.low (h.high.trans hsum)))
  -- both are even, so there is a magnitude between them that keeps the intervals apart
  have hapart : units (rank + 1) < units rank' := strictMono_units (by omega)
  have hstrict : (units rank + units (rank + 1)) * den < (units (rank' - 1) + units rank') * den :=
    Nat.mul_lt_mul_of_pos_right (Nat.add_lt_add_of_le_of_lt hle hapart) hden
  exact absurd (h'.low.trans h.high) (Nat.not_le_of_lt hstrict)

/-- A quotient rounds to one rank at most. -/
theorem unique (hden : 0 < den) (h : RoundsTo num den rank) (h' : RoundsTo num den rank') :
    rank = rank' :=
  Nat.le_antisymm (Nat.le_of_not_lt (h'.not_lt hden h)) (Nat.le_of_not_lt (h.not_lt hden h'))

end RoundsTo

/-- The block of a whole number of units. -/
theorem spacing_spec (n : Nat) :
    n < 2 * leadingBit * 2 ^ spacing n ∧ (spacing n = 0 ∨ leadingBit * 2 ^ spacing n ≤ n) := by
  have hL : leadingBit = 2 ^ 52 := by decide
  rw [hL, spacing]
  have hupper : n < 2 ^ (n.log2 + 1) := Nat.lt_log2_self
  rcases Nat.le_total n.log2 52 with h | h
  · rw [Nat.sub_eq_zero_of_le h]
    refine ⟨hupper.trans_le ?_, Or.inl rfl⟩
    calc 2 ^ (n.log2 + 1) ≤ 2 ^ 53 := Nat.pow_le_pow_right (by decide) (by omega)
      _ = 2 * 2 ^ 52 * 2 ^ 0 := by decide
  · obtain ⟨k, hk⟩ := Nat.exists_eq_add_of_le h
    have hn : n ≠ 0 := by
      rintro rfl
      exact absurd h (by decide)
    have hlower : 2 ^ n.log2 ≤ n := Nat.log2_self_le hn
    rw [hk] at hupper hlower
    rw [hk, Nat.add_sub_cancel_left]
    refine ⟨hupper.trans_le (Nat.le_of_eq (by ring)), Or.inr ?_⟩
    rwa [← Nat.pow_add]

/-- The block that a quotient is rounded in holds the integer part of the quotient, counted in its
spacing. -/
theorem inBlock_div (num den : Nat) :
    num / (den * 2 ^ spacing (num / den)) < 2 * leadingBit ∧
      (spacing (num / den) = 0 ∨ leadingBit ≤ num / (den * 2 ^ spacing (num / den))) := by
  obtain ⟨hlt, hle⟩ := spacing_spec (num / den)
  rw [← Nat.div_div_eq_div_mul]
  exact ⟨Nat.div_lt_of_lt_mul (by rwa [Nat.mul_comm]),
    hle.imp_right fun h => (Nat.le_div_iff_mul_le (Nat.two_pow_pos _)).mpr h⟩

section Block

variable {num den e q : Nat}

/-- The point halfway between two magnitudes of one block. -/
theorem units_add_units (h : InBlock e q) (h' : InBlock e (q + 1)) (den : Nat) :
    (units (e * leadingBit + q) + units (e * leadingBit + (q + 1))) * den =
      (2 * q + 1) * (den * 2 ^ e) := by
  rw [units_block h, units_block h']
  ring

/-- The point above: it is in the block, unless the quotient was rounded up to the end of it. -/
theorem high_of_inBlock (hq : InBlock e q) (h : 2 * num ≤ (2 * q + 1) * (den * 2 ^ e))
    (hend : q = 2 * leadingBit → num < q * (den * 2 ^ e)) :
    2 * num ≤ (units (e * leadingBit + q) + units (e * leadingBit + q + 1)) * den ∧
      (2 * num = (units (e * leadingBit + q) + units (e * leadingBit + q + 1)) * den →
        2 * num = (2 * q + 1) * (den * 2 ^ e)) := by
  rcases Nat.lt_or_ge q (2 * leadingBit) with hlt | hge
  · have hnext : InBlock e (q + 1) := ⟨by omega, hq.2.imp_right fun h => by omega⟩
    rw [Nat.add_assoc (e * leadingBit) q 1, units_add_units hq hnext]
    exact ⟨h, id⟩
  · have hlast : num < q * (den * 2 ^ e) := hend (Nat.le_antisymm hq.1 hge)
    have hunits : units (e * leadingBit + q) * den = q * (den * 2 ^ e) := by
      rw [units_block hq]
      ring
    have hmono : units (e * leadingBit + q) * den ≤ units (e * leadingBit + q + 1) * den :=
      Nat.mul_le_mul_right den (strictMono_units.monotone (Nat.le_succ _))
    rw [Nat.add_mul]
    omega

/-- The point below: it is in the block too, unless the magnitude is the first one of it. -/
theorem low_of_inBlock (hden : 0 < den) (hq : InBlock e q)
    (h : 2 * q * (den * 2 ^ e) ≤ 2 * num + den * 2 ^ e)
    (hfirst : e ≠ 0 → q = leadingBit → q * (den * 2 ^ e) ≤ num) :
    (units (e * leadingBit + q - 1) + units (e * leadingBit + q)) * den ≤ 2 * num ∧
      ((units (e * leadingBit + q - 1) + units (e * leadingBit + q)) * den = 2 * num →
        e * leadingBit + q = 0 ∨ 2 * q * (den * 2 ^ e) = 2 * num + den * 2 ^ e) := by
  by_cases hfst : e ≠ 0 ∧ q = leadingBit
  · obtain ⟨he, hL⟩ := hfst
    have hle : q * (den * 2 ^ e) ≤ num := hfirst he hL
    have hunits : units (e * leadingBit + q) * den = q * (den * 2 ^ e) := by
      rw [units_block hq]
      ring
    have hpos : 0 < leadingBit := leadingBit_pos
    have hmono : units (e * leadingBit + q - 1) * den < units (e * leadingBit + q) * den :=
      Nat.mul_lt_mul_of_pos_right (strictMono_units (by omega)) hden
    rw [Nat.add_mul]
    omega
  · cases q with
    | zero =>
      obtain rfl : e = 0 := hq.2.resolve_right (Nat.not_le_of_lt leadingBit_pos)
      rw [Nat.zero_mul, Nat.zero_add, Nat.zero_sub, units_of_lt leadingBit_pos, Nat.add_zero,
        Nat.zero_mul]
      exact ⟨Nat.zero_le _, fun _ => Or.inl rfl⟩
    | succ k =>
      have hprev : InBlock e k := ⟨by have := hq.1; omega, by have := hq.2; omega⟩
      rw [← Nat.add_assoc, Nat.add_sub_cancel, Nat.add_assoc, units_add_units hprev hq]
      have hdouble : 2 * (k + 1) * (den * 2 ^ e) = (2 * k + 1) * (den * 2 ^ e) + den * 2 ^ e := by
        ring
      rw [hdouble] at h ⊢
      exact ⟨Nat.le_of_add_le_add_right h, fun heq => Or.inr (by rw [heq])⟩

end Block

/-- **Rounding goes to the nearest rank.** -/
theorem roundsTo_nearestRank (num : Nat) {den : Nat} (hden : 0 < den) :
    RoundsTo num den (nearestRank num den) := by
  obtain ⟨hfloor, hblock⟩ := inBlock_div num den
  have hD : 0 < den * 2 ^ spacing (num / den) := Nat.mul_pos hden (Nat.two_pow_pos _)
  obtain ⟨⟨hbelow, habove⟩, htie⟩ := roundHalfEven_spec num hD
  obtain ⟨hge, hle⟩ := roundHalfEven_mem num (den * 2 ^ spacing (num / den))
  simp only [nearestRank, Nat.pow_eq]
  generalize spacing (num / den) = e at *
  generalize roundHalfEven num (den * 2 ^ e) = q at *
  have hq : InBlock e q := ⟨by omega, hblock.imp_right fun h => by omega⟩
  -- a quotient that reaches the end of its block has been rounded up, and none is rounded down to
  -- the beginning from outside
  have hend : q = 2 * leadingBit → num < q * (den * 2 ^ e) := fun h =>
    h ▸ (Nat.div_lt_iff_lt_mul hD).mp hfloor
  have hfirst : e ≠ 0 → q = leadingBit → q * (den * 2 ^ e) ≤ num := fun he h =>
    h ▸ (Nat.le_div_iff_mul_le hD).mp (hblock.resolve_left he)
  obtain ⟨hlow, hlow'⟩ := low_of_inBlock hden hq hbelow hfirst
  obtain ⟨hhigh, hhigh'⟩ := high_of_inBlock hq habove hend
  have heven : q % 2 = 0 → (e * leadingBit + q) % 2 = 0 := fun h => by
    rw [Nat.add_mod, Nat.mul_mod, show leadingBit % 2 = 0 by decide, Nat.mul_zero, h]
  refine ⟨hlow, hhigh, ?_⟩
  rintro (h | h)
  · rcases hlow' h with hzero | hq'
    · rw [hzero]
    · exact heven (htie (Or.inl hq'))
  · exact heven (htie (Or.inr (hhigh' h)))

/-- A quotient is read as the magnitude of the rank that it rounds to. -/
theorem RoundsTo.nearestRank_eq {num den rank : Nat} (hden : 0 < den)
    (h : RoundsTo num den rank) : nearestRank num den = rank :=
  (roundsTo_nearestRank num hden).unique hden h

end Reckoner.Number
