import Reckoner.Proofs.Number.Denoted

/-!
# The compact text rounds and keeps the order

The compact text of a finite number denotes the exact value of the number rounded: to a multiple of
`10 ^ -6` where it is positional, and to seven significant digits where it has an exponent
(`isCompactText_compactText`). The two forms meet at `10 ^ 10` and at `10 ^ -5`, and rounding does
not pass a power of ten in either. So one text denotes no more than another if its number is no
greater, whatever the forms of the two (`monotone_compactValue`).
-/

namespace Reckoner.Number

variable {r r' : Nat}

/-! ### Where the forms meet -/

theorem magnitude_compactMaximum : magnitude compactMaximum = 10 ^ 10 := by
  have h : units compactMaximum = 10 ^ 10 * unitsPerOne := by decide +kernel
  rw [magnitude, h, Nat.cast_mul, mul_div_cancel_right₀ _ unitsPerOne_cast_pos.ne', Nat.cast_pow,
    Nat.cast_ofNat]

theorem le_magnitude_compactMinimum : 10 ^ (-5 : ℤ) ≤ magnitude compactMinimum := by
  have h : unitsPerOne ≤ units compactMinimum * 10 ^ 5 := by decide +kernel
  have hcast : (unitsPerOne : ℚ) ≤ units compactMinimum * 10 ^ 5 := by exact_mod_cast h
  rw [zpow_neg, magnitude, le_div_iff₀ unitsPerOne_cast_pos, inv_mul_le_iff₀ (zpow_ten_pos 5),
    mul_comm]
  exact hcast

/-- No magnitude lies between. -/
theorem magnitude_le_of_lt_compactMinimum (h : r < compactMinimum) :
    magnitude r ≤ 10 ^ (-5 : ℤ) := by
  have hpred : units (compactMinimum - 1) * 10 ^ 5 ≤ unitsPerOne := by decide +kernel
  have hcast : (units (compactMinimum - 1) * 10 ^ 5 : ℚ) ≤ unitsPerOne := by exact_mod_cast hpred
  have hle : r ≤ compactMinimum - 1 := by omega
  refine (strictMono_magnitude.monotone hle).trans ?_
  rw [zpow_neg, magnitude, div_le_iff₀ unitsPerOne_cast_pos, le_inv_mul_iff₀ (zpow_ten_pos 5),
    mul_comm]
  exact hcast

theorem needsExponent_eq_true_iff : needsExponent r = true ↔
    compactMaximum < r ∨ 0 < r ∧ r < compactMinimum := by
  rw [needsExponent, Bool.or_eq_true, Bool.and_eq_true, decide_eq_true_iff, decide_eq_true_iff,
    decide_eq_true_iff]

theorem needsExponent_eq_false_iff : needsExponent r = false ↔
    r ≤ compactMaximum ∧ (r = 0 ∨ compactMinimum ≤ r) := by
  rw [← Bool.not_eq_true, needsExponent_eq_true_iff]
  omega

/-! ### The value of the text -/

/-- The number that the compact text of a magnitude denotes. -/
def compactValue (r : Nat) : ℚ := unsigned (compactMagnitude r)

theorem positional_compactMagnitude (h : needsExponent r = false) :
    IsPositional 6 (compactMagnitude r) ∧
      IsNearest (10 ^ (-6 : ℤ)) (magnitude r) (compactValue r) := by
  have hnearest := isNearest_fixed 6 r
  obtain ⟨hform, hvalue⟩ := isPositional_dropTrailingZeros (d := fixed 6 r) (Nat.succ_ne_zero 5)
  rw [compactValue, compactMagnitude, if_neg (by rw [h]; exact Bool.false_ne_true), hvalue]
  exact ⟨hform, hnearest⟩

theorem exponential_compactMagnitude (h : needsExponent r = true) :
    IsExponential 6 (compactMagnitude r) ∧ ∃ e : ℤ, 10 ^ e ≤ magnitude r ∧
      magnitude r < 10 ^ (e + 1) ∧ IsNearest (10 ^ (e - 6)) (magnitude r) (compactValue r) := by
  have hpos : 0 < r := by
    rw [needsExponent_eq_true_iff] at h
    omega
  have hextra : 10 ^ 6 ≤ halfUnit := by decide +kernel
  obtain ⟨⟨hlow, hhigh⟩, e, hle, hlt, hnearest⟩ := isNearest_scientific hpos hextra
  obtain ⟨hform, hvalue⟩ := isExponential_chars (by decide) hlow hhigh
  rw [compactValue, compactMagnitude, if_pos h, hvalue]
  exact ⟨hform, e, hle, hlt, hnearest⟩

/-! ### The order -/

theorem compactValue_nonneg (r : Nat) : 0 ≤ compactValue r := by
  cases h : needsExponent r with
  | false => exact (positional_compactMagnitude h).2.nonneg (magnitude_nonneg r)
  | true =>
    obtain ⟨-, e, -, -, hnearest⟩ := exponential_compactMagnitude h
    exact hnearest.nonneg (magnitude_nonneg r)

theorem compactValue_zero : compactValue 0 = 0 := by
  have hplain : needsExponent 0 = false := needsExponent_eq_false_iff.2 ⟨Nat.zero_le _, Or.inl rfl⟩
  have hnearest := (positional_compactMagnitude hplain).2
  rw [magnitude_zero] at hnearest
  have hneg := hnearest.neg.nonneg (by rw [neg_zero])
  exact le_antisymm (neg_nonneg.1 hneg) (compactValue_nonneg 0)

/-- A positional text denotes no more than `10 ^ 10` and, unless it is that of zero, no less than
`10 ^ -5`. -/
theorem positional_bounds (h : needsExponent r = false) : compactValue r ≤ 10 ^ (10 : ℤ) ∧
    (r ≠ 0 → 10 ^ (-5 : ℤ) ≤ compactValue r) := by
  obtain ⟨-, hnearest⟩ := positional_compactMagnitude h
  obtain ⟨hmax, hmin⟩ := needsExponent_eq_false_iff.1 h
  refine ⟨hnearest.le_zpow (by decide) ?_, fun hzero => hnearest.zpow_le (by decide) ?_⟩
  · exact (strictMono_magnitude.monotone hmax).trans_eq magnitude_compactMaximum
  · exact le_magnitude_compactMinimum.trans
      (strictMono_magnitude.monotone (hmin.resolve_left hzero))

/-- A text with an exponent denotes no less than `10 ^ 10` or no more than `10 ^ -5`. -/
theorem exponential_bounds (h : needsExponent r = true) :
    compactMaximum < r ∧ 10 ^ (10 : ℤ) ≤ compactValue r ∨
      r < compactMinimum ∧ compactValue r ≤ 10 ^ (-5 : ℤ) := by
  obtain ⟨-, e, hlow, hhigh, hnearest⟩ := exponential_compactMagnitude h
  rcases needsExponent_eq_true_iff.1 h with hmax | ⟨-, hmin⟩
  · have hten : (10 : ℚ) ^ (10 : ℤ) < magnitude r :=
      magnitude_compactMaximum.symm.trans_lt (strictMono_magnitude hmax)
    have he : 10 < e + 1 := zpow_lt_zpow_iff.1 (hten.trans hhigh)
    refine Or.inl ⟨hmax, ?_⟩
    exact (zpow_le_zpow_iff.2 (by omega)).trans (hnearest.zpow_le (by omega) hlow)
  · have hfive := magnitude_le_of_lt_compactMinimum hmin
    have he : e ≤ -5 := zpow_le_zpow_iff.1 (hlow.trans hfive)
    exact Or.inr ⟨hmin, hnearest.le_zpow (by omega) hfive⟩

/-- A greater magnitude does not have a text that denotes less. -/
theorem monotone_compactValue : Monotone compactValue := by
  intro r r' hr
  have hle : magnitude r ≤ magnitude r' := strictMono_magnitude.monotone hr
  cases h : needsExponent r <;> cases h' : needsExponent r'
  · have hnearest := (positional_compactMagnitude h).2
    exact hnearest.mono (zpow_ten_pos _) (positional_compactMagnitude h').2 hle
  · rcases exponential_bounds h' with ⟨-, hten⟩ | ⟨hmin, -⟩
    · exact (positional_bounds h).1.trans hten
    · obtain rfl : r = 0 := (needsExponent_eq_false_iff.1 h).2.resolve_right (by omega)
      rw [compactValue_zero]
      exact compactValue_nonneg r'
  · have hmax' := (needsExponent_eq_false_iff.1 h').1
    have hpos := needsExponent_eq_true_iff.1 h
    rcases exponential_bounds h with ⟨hmax, -⟩ | ⟨-, hfive⟩
    · omega
    · exact hfive.trans ((positional_bounds h').2 (by omega))
  · obtain ⟨-, e, hlow, hhigh, hnearest⟩ := exponential_compactMagnitude h
    obtain ⟨-, e', hlow', hhigh', hnearest'⟩ := exponential_compactMagnitude h'
    have he : e < e' + 1 := zpow_lt_zpow_iff.1 (hlow.trans_lt (hle.trans_lt hhigh'))
    rcases eq_or_ne e e' with rfl | hne
    · exact hnearest.mono (zpow_ten_pos _) hnearest' hle
    · -- a power of ten lies between
      calc compactValue r ≤ 10 ^ (e + 1) := hnearest.le_zpow (by omega) hhigh.le
        _ ≤ 10 ^ e' := zpow_le_zpow_iff.2 (by omega)
        _ ≤ compactValue r' := hnearest'.zpow_le (by omega) hlow'

/-! ### Signs -/

/-- Whether the compact text of a number is positional: it is zero, or its exact value is neither
beyond `10 ^ 10` nor below the number nearest to `10 ^ -5`. -/
def IsPlain (x : Number) : Prop :=
  |x.toRat| ≤ 10 ^ 10 ∧ (x.toRat = 0 ∨ (ofRatio false 1 (10 ^ 5)).toRat ≤ |x.toRat|)

theorem toRat_ofRatio : (ofRatio false 1 (10 ^ 5)).toRat = magnitude compactMinimum := by
  have hlt : nearestRank (1 * unitsPerOne) (10 ^ 5) < finiteCount := by decide +kernel
  rw [ofRatio, ofUnits, ofRank_of_lt hlt, compactMinimum, Nat.pow_eq]
  show magnitude (nearestRank (1 * unitsPerOne) (10 ^ 5)) = _
  rw [Nat.one_mul]

theorem isPlain_iff (s : Bool) (r : Fin finiteCount) :
    (finite s r).IsPlain ↔ needsExponent r = false := by
  have hzero : (finite s r).toRat = 0 ↔ r.val = 0 := by
    rw [← abs_eq_zero, abs_toRat_finite, ← magnitude_zero, strictMono_magnitude.injective.eq_iff]
  rw [IsPlain, abs_toRat_finite, toRat_ofRatio, hzero, ← magnitude_compactMaximum,
    strictMono_magnitude.le_iff_le, strictMono_magnitude.le_iff_le, needsExponent_eq_false_iff]

theorem head?_compactMagnitude_ne (r : Nat) : (compactMagnitude r).head? ≠ some '-' := by
  cases h : needsExponent r with
  | false => exact (positional_compactMagnitude h).1.head?_ne
  | true => exact (exponential_compactMagnitude h).1.head?_ne

theorem toList_compactText (s : Bool) (r : Fin finiteCount) :
    (finite s r).compactText.toList = withSign s (compactMagnitude r) := String.toList_ofList

/-- The sign of the text is that of the number. -/
theorem denoted_compactText (s : Bool) (r : Fin finiteCount) :
    denoted (finite s r).compactText.toList = signed s (compactValue r) := by
  rw [toList_compactText, denoted_withSign s (head?_compactMagnitude_ne r), compactValue]

/-- What the compact text of a finite number is like. -/
structure IsCompactText (x : Number) (cs : List Char) : Prop where
  /-- Positional, a multiple of `10 ^ -6`. -/
  plain : x.IsPlain → (∃ ds, cs = withSign x.signBit ds ∧ IsPositional 6 ds) ∧
    IsNearest (10 ^ (-6 : ℤ)) x.toRat (denoted cs)
  /-- With an exponent, of seven significant digits: the first of them stands for `10 ^ e`. -/
  exponential : ¬ x.IsPlain → (∃ ds, cs = withSign x.signBit ds ∧ IsExponential 6 ds) ∧
    ∃ e : ℤ, 10 ^ e ≤ |x.toRat| ∧ |x.toRat| < 10 ^ (e + 1) ∧
      IsNearest (10 ^ (e - 6)) x.toRat (denoted cs)

theorem isCompactText_compactText (s : Bool) (r : Fin finiteCount) :
    IsCompactText (finite s r) (finite s r).compactText.toList := by
  refine ⟨fun h => ?_, fun h => ?_⟩
  · obtain ⟨hform, hnearest⟩ := positional_compactMagnitude ((isPlain_iff s r).1 h)
    refine ⟨⟨compactMagnitude r, toList_compactText s r, hform⟩, ?_⟩
    rw [denoted_compactText]
    exact hnearest.signed s
  · rw [isPlain_iff, Bool.not_eq_false] at h
    obtain ⟨hform, e, hlow, hhigh, hnearest⟩ := exponential_compactMagnitude h
    refine ⟨⟨compactMagnitude r, toList_compactText s r, hform⟩, e, ?_, ?_, ?_⟩
    · rwa [abs_toRat_finite]
    · rwa [abs_toRat_finite]
    · rw [denoted_compactText]
      exact hnearest.signed s

/-- Signs turn the order of the magnitudes and that of the texts alike. -/
theorem signed_compactValue_le {s s' : Bool}
    (h : signed s (magnitude r) ≤ signed s' (magnitude r')) :
    signed s (compactValue r) ≤ signed s' (compactValue r') := by
  have hr := magnitude_nonneg r
  have hr' := magnitude_nonneg r'
  cases s <;> cases s'
  · exact monotone_compactValue (strictMono_magnitude.le_iff_le.1 h)
  · -- both are zero
    have hneg : magnitude r ≤ -magnitude r' := h
    have hzero : magnitude r = magnitude 0 := by rw [magnitude_zero]; linarith
    have hzero' : magnitude r' = magnitude 0 := by rw [magnitude_zero]; linarith
    rw [strictMono_magnitude.injective hzero, strictMono_magnitude.injective hzero',
      compactValue_zero]
    exact le_of_eq neg_zero.symm
  · exact (neg_nonpos.2 (compactValue_nonneg r)).trans (compactValue_nonneg r')
  · have hge : magnitude r' ≤ magnitude r := neg_le_neg_iff.1 h
    exact neg_le_neg (monotone_compactValue (strictMono_magnitude.le_iff_le.1 hge))

/-- **The compact text rounds and keeps the order.** The compact text of a finite number denotes its
exact value rounded to the nearest decimal, the even one of two: to six places if the text is
positional, and else to seven significant digits. A text does not denote less than that of a smaller
number. -/
theorem compactText_rounds :
    (∀ x : Number, x.isFinite = true → IsCompactText x x.compactText.toList) ∧
    ∀ x y : Number, x.isFinite = true → y.isFinite = true → x.toRat ≤ y.toRat →
      denoted x.compactText.toList ≤ denoted y.compactText.toList := by
  constructor
  · intro x hx
    cases x with
    | nan | infinity => cases hx
    | finite s r => exact isCompactText_compactText s r
  · intro x y hx hy hxy
    cases x with
    | nan | infinity => cases hx
    | finite s r =>
      cases y with
      | nan | infinity => cases hy
      | finite s' r' =>
        rw [denoted_compactText, denoted_compactText]
        exact signed_compactValue_le hxy

/-- The number nearest to `10 ^ -5` and the one before it have texts of different forms. -/
theorem compactText_rounds_meet :
    (ofBits 0x3EE4F8B588E368F0).compactText = "1.000000e-5" ∧
    (ofBits 0x3EE4F8B588E368F1).compactText = "0.00001" ∧
    denoted "1.000000e-5".toList ≤ denoted "0.00001".toList ∧
    IsNearest (10 ^ (-6 : ℤ)) (ofBits 0x3EE4F8B588E368F1).toRat (denoted "0.00001".toList) := by
  obtain ⟨hform, hmono⟩ := compactText_rounds
  have hbelow : ofBits 0x3EE4F8B588E368F0 = finite false ⟨0x3EE4F8B588E368F0, by decide⟩ := by
    decide +kernel
  have hat : ofBits 0x3EE4F8B588E368F1 = finite false ⟨0x3EE4F8B588E368F1, by decide⟩ := by
    decide +kernel
  have htext : (ofBits 0x3EE4F8B588E368F0).compactText = "1.000000e-5" := by decide +kernel
  have htext' : (ofBits 0x3EE4F8B588E368F1).compactText = "0.00001" := by decide +kernel
  have hle : (ofBits 0x3EE4F8B588E368F0).toRat ≤ (ofBits 0x3EE4F8B588E368F1).toRat := by
    rw [hbelow, hat]
    exact strictMono_magnitude.monotone (by decide)
  have hplain : (ofBits 0x3EE4F8B588E368F1).IsPlain := by
    rw [hat, isPlain_iff]
    decide +kernel
  have hdenoted := hmono _ _ (by rw [hbelow]; rfl) (by rw [hat]; rfl) hle
  have hnearest := ((hform _ (by rw [hat]; rfl)).plain hplain).2
  rw [htext, htext'] at hdenoted
  rw [htext'] at hnearest
  exact ⟨htext, htext', hdenoted, hnearest⟩

end Reckoner.Number
