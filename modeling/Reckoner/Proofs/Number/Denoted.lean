import Mathlib.Data.List.TakeWhile
import Mathlib.Tactic.FieldSimp
import Reckoner.Proofs.Number.Digits
import Reckoner.Proofs.Number.Nearest

/-!
# What a text denotes

A text denotes a number by its digits, the point among them, the sign in front and the power of ten
behind an `e` (`denoted`). The text of a decimal denotes the value of the decimal, and so does the
text without the zeros at its end (`isPositional_dropTrailingZeros`); the text of a decimal in
exponent form denotes the value of that (`isExponential_chars`).
-/

namespace Reckoner.Number

variable {cs whole part : List Char}

/-! ### Reading -/

/-- The number that digits denote; a point may stand among them. -/
def positional (cs : List Char) : ℚ :=
  Nat.ofDigitChars 10 (cs.filter Char.isDigit) 0 / 10 ^ ((cs.dropWhile (· != '.')).drop 1).length

/-- The integer that digits denote, with a minus sign in front if it is negative. -/
def integer : List Char → ℤ
  | '-' :: cs => -Nat.ofDigitChars 10 cs 0
  | cs => Nat.ofDigitChars 10 cs 0

/-- The number that a text without a sign denotes. -/
def unsigned (cs : List Char) : ℚ :=
  positional (cs.takeWhile (· != 'e')) * 10 ^ integer ((cs.dropWhile (· != 'e')).drop 1)

/-- The number that a text denotes. -/
def denoted : List Char → ℚ
  | '-' :: cs => -unsigned cs
  | cs => unsigned cs

theorem ne_of_isDigit {c d : Char} (hc : c.isDigit = true) (hd : d.isDigit = false) : c ≠ d := by
  rintro rfl
  rw [hd] at hc
  cases hc

theorem denoted_withSign (negative : Bool) (h : cs.head? ≠ some '-') :
    denoted (withSign negative cs) = signed negative (unsigned cs) := by
  cases negative with
  | true => rfl
  | false =>
    show denoted cs = unsigned cs
    rw [denoted]
    rintro ds rfl
    exact h rfl

theorem bne_exponent (h : 'e' ∉ cs) : ∀ c ∈ cs, (c != 'e') = true := by
  intro c hc
  rw [bne_iff_ne]
  rintro rfl
  exact h hc

theorem unsigned_of_not_mem (h : 'e' ∉ cs) : unsigned cs = positional cs := by
  rw [unsigned, List.takeWhile_eq_self_iff.2 (bne_exponent h),
    List.dropWhile_eq_nil_iff.2 (bne_exponent h)]
  exact mul_one _

theorem unsigned_append_exponent (h : 'e' ∉ cs) (es : List Char) :
    unsigned (cs ++ 'e' :: es) = positional cs * 10 ^ integer es := by
  rw [unsigned, List.takeWhile_append_of_pos (bne_exponent h),
    List.dropWhile_append_of_pos (bne_exponent h), List.takeWhile_cons_of_neg (by decide),
    List.dropWhile_cons_of_neg (by decide), List.append_nil, List.drop_one, List.tail_cons]

/-- The digits behind the point are counted. -/
theorem positional_fraction (hdigits : ∀ c ∈ whole ++ part, c.isDigit = true) :
    positional (whole ++ fraction part) =
      Nat.ofDigitChars 10 (whole ++ part) 0 / 10 ^ part.length := by
  have hwhole : ∀ c ∈ whole, c.isDigit = true := fun c hc => hdigits c (List.mem_append_left _ hc)
  have hpart : ∀ c ∈ part, c.isDigit = true := fun c hc => hdigits c (List.mem_append_right _ hc)
  have hpoint : ∀ c ∈ whole, (c != '.') = true := fun c hc =>
    bne_iff_ne.2 (ne_of_isDigit (hwhole c hc) rfl)
  rw [positional, List.filter_append, List.filter_eq_self.2 hwhole, filter_fraction hpart,
    List.dropWhile_append_of_pos hpoint, drop_fraction]

theorem exponent_not_mem (hdigits : ∀ c ∈ whole ++ part, c.isDigit = true) :
    'e' ∉ whole ++ fraction part := by
  have he : 'e' ∉ whole ++ part := fun hmem => ne_of_isDigit (hdigits 'e' hmem) rfl rfl
  rw [List.mem_append] at he ⊢
  exact fun hmem => he (hmem.imp_right fun h => (mem_fraction h).resolve_left (by decide))

/-- Zeros behind the point do not count. -/
theorem ofDigitChars_append_zeros (cs : List Char) (n k : Nat) :
    (Nat.ofDigitChars 10 (cs ++ List.replicate k '0') 0 / 10 ^ (n + k) : ℚ) =
      Nat.ofDigitChars 10 cs 0 / 10 ^ n := by
  rw [Nat.ofDigitChars_append, Nat.ofDigitChars_replicate_zero, Nat.cast_mul, Nat.cast_pow,
    Nat.cast_ofNat, pow_add, mul_comm ((10 : ℚ) ^ k)]
  exact mul_div_mul_right _ _ (by positivity)

/-- An integer is read from its text. -/
theorem integer_toString (n : ℤ) : integer (toString n).toList = n := by
  have hminus : ∀ m : Nat, (Nat.toDigits 10 m).head? ≠ some '-' := by
    intro m hhead
    have hdigit := Nat.isDigit_of_mem_toDigits (Nat.succ_pos 9) (Nat.le_refl 10)
      (List.mem_of_mem_head? hhead)
    exact ne_of_isDigit hdigit rfl rfl
  cases n with
  | ofNat m =>
    show integer m.repr.toList = m
    rw [Nat.toList_repr, integer, Nat.ofDigitChars_ten_toDigits]
    rintro ds hds
    exact hminus m (by rw [hds]; rfl)
  | negSucc m =>
    show integer ("-" ++ m.succ.repr).toList = Int.negSucc m
    rw [String.toList_append, Nat.toList_repr]
    show -((Nat.ofDigitChars 10 (Nat.toDigits 10 m.succ) 0 : Nat) : ℤ) = Int.negSucc m
    rw [Nat.ofDigitChars_ten_toDigits]
    rfl

/-! ### Writing -/

/-- Digits, and no more than `places` digits behind a point, the last of them not a zero; no point
if there are none. -/
def IsPositional (places : Nat) (cs : List Char) : Prop :=
  ∃ whole part, cs = whole ++ fraction part ∧ whole ≠ [] ∧
    (∀ c ∈ whole ++ part, c.isDigit = true) ∧ part.length ≤ places ∧ part.getLast? ≠ some '0'

/-- A digit other than zero, a point, `extra` digits and an exponent. -/
def IsExponential (extra : Nat) (cs : List Char) : Prop :=
  ∃ c ds, ∃ e : ℤ, cs = c :: '.' :: ds ++ 'e' :: (toString e).toList ∧ c ≠ '0' ∧
    (∀ d ∈ c :: ds, d.isDigit = true) ∧ ds.length = extra

theorem IsPositional.head?_ne {places : Nat} {cs : List Char} (h : IsPositional places cs) :
    cs.head? ≠ some '-' := by
  obtain ⟨whole, part, rfl, hne, hdigits, -⟩ := h
  rw [List.head?_append_of_ne_nil _ hne]
  intro hhead
  exact ne_of_isDigit (hdigits '-' (List.mem_append_left _ (List.mem_of_mem_head? hhead))) rfl rfl

theorem IsExponential.head?_ne {extra : Nat} {cs : List Char} (h : IsExponential extra cs) :
    cs.head? ≠ some '-' := by
  obtain ⟨c, ds, e, rfl, -, hdigits, -⟩ := h
  exact fun hhead => ne_of_isDigit (hdigits c List.mem_cons_self) rfl (Option.some.inj hhead)

/-- A decimal is written without the zeros at its end, and that denotes it. -/
theorem isPositional_dropTrailingZeros {d : Decimal} (hplaces : d.places ≠ 0) :
    IsPositional d.places (dropTrailingZeros d.chars) ∧
      unsigned (dropTrailingZeros d.chars) = d.value := by
  obtain ⟨whole, part, happend, hne, hlen, hchars⟩ := d.exists_chars_eq
  have hdigits : ∀ c ∈ whole ++ part, c.isDigit = true := fun c hc =>
    isDigit_of_mem_padded (happend ▸ hc)
  have hpart : part ≠ [] := List.ne_nil_of_length_pos (by omega)
  have hlast := getLast?_rdropWhile_ne part
  have hvalue := ofDigitChars_padded d
  rw [hchars, dropTrailingZeros_fraction hpart hdigits]
  obtain ⟨k, hk⟩ := exists_eq_append_replicate part
  generalize part.rdropWhile (· == '0') = rest at *
  subst hk
  rw [List.length_append, List.length_replicate] at hlen
  have hrest : ∀ c ∈ whole ++ rest, c.isDigit = true := fun c hc => by
    rw [← List.append_assoc] at hdigits
    exact hdigits c (List.mem_append_left _ hc)
  refine ⟨⟨whole, rest, rfl, hne, hrest, by omega, hlast⟩, ?_⟩
  rw [unsigned_of_not_mem (exponent_not_mem hrest), positional_fraction hrest, Decimal.value,
    ← hvalue, ← happend, ← hlen, ← List.append_assoc, ofDigitChars_append_zeros]

/-- A decimal in exponent form is written with its significant digits, and that denotes it. -/
theorem isExponential_chars {extra : Nat} {d : Scientific} (hextra : 0 < extra)
    (hlow : 10 ^ extra ≤ d.digits) (hhigh : d.digits < 10 ^ (extra + 1)) :
    IsExponential extra d.chars ∧ unsigned d.chars = d.value extra := by
  have hpos : 0 < d.digits := (Nat.pow_pos (by decide)).trans_le hlow
  have hlength : (Nat.toDigits 10 d.digits).length = extra + 1 := by
    obtain ⟨hle, hlt⟩ := pow_length_toDigits hpos
    have hmost := (Nat.pow_lt_pow_iff_right (by decide)).1 (hle.trans_lt hhigh)
    have hleast := (Nat.pow_lt_pow_iff_right (by decide)).1 (hlow.trans_lt hlt)
    omega
  have hdigits : ∀ c ∈ Nat.toDigits 10 d.digits, c.isDigit = true := fun c hc =>
    Nat.isDigit_of_mem_toDigits (Nat.succ_pos 9) (Nat.le_refl 10) hc
  have hfirst := head?_toDigits_ne hpos
  have hvalue := Nat.ofDigitChars_ten_toDigits (n := d.digits)
  rw [Scientific.chars]
  cases hcs : Nat.toDigits 10 d.digits with
  | nil =>
    rw [hcs] at hlength
    cases hlength
  | cons c ds =>
    rw [hcs] at hlength hdigits hfirst hvalue
    have hlen : ds.length = extra := Nat.succ.inj hlength
    have hne : ds ≠ [] := List.ne_nil_of_length_pos (by omega)
    refine ⟨⟨c, ds, d.exponent, rfl, fun hc => hfirst (congrArg some hc), hdigits, hlen⟩, ?_⟩
    have htext : c :: '.' :: ds = [c] ++ fraction ds := by
      rw [fraction_of_ne_nil hne, List.singleton_append]
    have hten : (10 : ℚ) ≠ 0 := by norm_num
    show unsigned (c :: '.' :: ds ++ 'e' :: (toString d.exponent).toList) = _
    rw [htext, unsigned_append_exponent (exponent_not_mem hdigits), positional_fraction hdigits,
      integer_toString, List.singleton_append, hvalue, hlen, Scientific.value, zpow_sub₀ hten,
      zpow_natCast, div_mul_eq_mul_div, mul_div_assoc]

end Reckoner.Number
