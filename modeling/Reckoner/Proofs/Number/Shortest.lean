import Reckoner.Number.Decimal
import Reckoner.Proofs.Number.Rounding

/-!
# The shortest decimal reads back

The search for the shortest decimal of a rank only ever stops at a value inside the interval of the
values that read as that rank (`Interval.contains_coarsest`); at the latest it stops at the
magnitude itself. The values of the interval, counted in steps of `10 ^ -1075`, are the decimals
that round to the rank (`roundsTo_of_contains`). So the decimal that is found rounds to the rank it
was found for (`roundsTo_shortest`).
-/

namespace Reckoner.Number

theorem halfUnit_pos : 0 < halfUnit := by decide +kernel

/-! ### The search stays in the interval -/

namespace Interval

variable {i : Interval}

theorem contains_iff {x : Nat} : i.contains x = true ↔
    i.low ≤ x ∧ x ≤ i.high ∧ (i.low = x ∨ x = i.high → i.closed = true) := by
  rw [contains]
  cases hc : i.closed
  · simp only [Bool.false_eq_true, if_false, Bool.and_eq_true, decide_eq_true_eq, imp_false]
    omega
  · simp only [if_true, Bool.and_eq_true, decide_eq_true_eq, implies_true, and_true]

theorem contains_of_nearestMultiple? {step q : Nat} (h : i.nearestMultiple? step = some q) :
    i.contains (q * step) = true := by
  simp only [nearestMultiple?] at h
  split_ifs at h with hbelow habove
  · cases h
    exact (Bool.and_eq_true_iff.mp hbelow).1
  · cases h
    exact habove

/-- Wherever the search begins, it ends in the interval. -/
theorem contains_coarsest (h : i.contains i.value = true) (k : Nat) :
    i.contains ((i.coarsest k).1 * 10 ^ (i.coarsest k).2) = true := by
  induction k with
  | zero => rwa [coarsest, Nat.pow_zero, Nat.mul_one]
  | succ k ih =>
    rw [coarsest]
    cases hq : i.nearestMultiple? (Nat.pow 10 (k + 1)) with
    | none => exact ih
    | some q => exact contains_of_nearestMultiple? hq

theorem contains_value {rank : Nat} (h : 0 < rank) :
    (ofRank rank).contains (ofRank rank).value = true := by
  have hbelow : units (rank - 1) < units rank := strictMono_units (by omega)
  have habove : units rank < units (rank + 1) := strictMono_units (Nat.lt_succ_self rank)
  have hlow : (ofRank rank).low < (ofRank rank).value :=
    Nat.mul_lt_mul_of_pos_right (by omega) halfUnit_pos
  have hhigh : (ofRank rank).value < (ofRank rank).high :=
    Nat.mul_lt_mul_of_pos_right (by omega) halfUnit_pos
  rw [contains_iff]
  omega

end Interval

/-! ### Decimals as values of the interval -/

/-- A step is the unit, divided by twice the number of steps that the half unit has. -/
theorem pow_finestPlaces : 10 ^ finestPlaces = 2 * unitsPerOne * halfUnit := by decide +kernel

/-- A decimal whose value is in the interval of a rank rounds to that rank. -/
theorem roundsTo_of_contains {rank x : Nat} {d : Decimal}
    (hx : (Interval.ofRank rank).contains x = true)
    (hd : d.digits * 10 ^ finestPlaces = x * 10 ^ d.places) :
    RoundsTo (d.digits * unitsPerOne) (10 ^ d.places) rank := by
  obtain ⟨hlow, hhigh, htie⟩ := Interval.contains_iff.mp hx
  have hP : 0 < 10 ^ d.places := Nat.pow_pos (by decide)
  -- both sides of each comparison are counted in half units
  have hvalue : 2 * (d.digits * unitsPerOne) * halfUnit = x * 10 ^ d.places := by
    rw [← hd, pow_finestPlaces]
    ring
  have hscale : ∀ u, u * 10 ^ d.places * halfUnit = u * halfUnit * 10 ^ d.places := fun u => by ring
  refine ⟨Nat.le_of_mul_le_mul_right ?_ halfUnit_pos, Nat.le_of_mul_le_mul_right ?_ halfUnit_pos,
    fun h => ?_⟩
  · rw [hvalue, hscale]
    exact Nat.mul_le_mul_right _ hlow
  · rw [hvalue, hscale]
    exact Nat.mul_le_mul_right _ hhigh
  · have hclosed : (Interval.ofRank rank).closed = true := by
      refine htie (h.imp (fun heq => ?_) fun heq => ?_)
      · refine Nat.eq_of_mul_eq_mul_right hP ?_
        rw [← hvalue, ← heq, hscale]
        rfl
      · refine Nat.eq_of_mul_eq_mul_right hP ?_
        rw [← hvalue, heq, hscale]
        rfl
    exact of_decide_eq_true hclosed

/-- The shortest decimal of a positive rank is what the search has hit, with the point moved to its
place. -/
theorem exists_hit {rank : Nat} (h : 0 < rank) :
    ∃ hit : Nat × Nat, (Interval.ofRank rank).contains (hit.1 * 10 ^ hit.2) = true ∧
      shortest rank = if hit.2 ≤ finestPlaces then ⟨hit.1, finestPlaces - hit.2⟩
        else ⟨hit.1 * Nat.pow 10 (hit.2 - finestPlaces), 0⟩ :=
  ⟨_, Interval.contains_coarsest (Interval.contains_value h) _, if_neg (Nat.ne_of_gt h)⟩

/-- Moving the point keeps the value. -/
theorem exists_contains_shortest {rank : Nat} (h : 0 < rank) :
    ∃ x, (Interval.ofRank rank).contains x = true ∧
      (shortest rank).digits * 10 ^ finestPlaces = x * 10 ^ (shortest rank).places := by
  obtain ⟨hit, hx, hshortest⟩ := exists_hit h
  refine ⟨_, hx, ?_⟩
  rw [hshortest]
  generalize finestPlaces = finest
  split_ifs with hk
  · rw [Nat.mul_assoc, ← Nat.pow_add, Nat.add_sub_cancel' hk]
  · rw [Nat.pow_eq, Nat.mul_assoc, ← Nat.pow_add, Nat.sub_add_cancel (Nat.le_of_not_le hk),
      Nat.pow_zero, Nat.mul_one]

/-- **The shortest decimal of a rank rounds to that rank.** -/
theorem roundsTo_shortest (rank : Nat) :
    RoundsTo ((shortest rank).digits * unitsPerOne) (10 ^ (shortest rank).places) rank := by
  rcases Nat.eq_zero_or_pos rank with rfl | h
  · -- zero is written as it is
    rw [shortest, if_pos rfl, Nat.zero_mul]
    refine ⟨?_, Nat.zero_le _, fun _ => rfl⟩
    rw [Nat.zero_sub, units_of_lt leadingBit_pos, Nat.add_zero, Nat.zero_mul]
  · obtain ⟨x, hx, hd⟩ := exists_contains_shortest h
    exact roundsTo_of_contains hx hd

end Reckoner.Number
