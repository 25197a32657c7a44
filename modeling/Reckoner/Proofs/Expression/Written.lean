import Reckoner.Proofs.Expression.Lexemes
import Reckoner.Proofs.Number.Digits
import Reckoner.Proofs.Number.Shortest

/-!
# Numbers and calculations read back

The full text of a finite magnitude is a literal (`exists_literal`), and since the shortest decimal
rounds to its rank, the literal has the magnitude as its value. A negative number is a literal with
a sign. Signs bind more tightly than any operator, so the full text of a finite number can be either
operand of each operator (`exists_derives_chars`). Hence the full text of a finite number evaluates
to the number, and the text of a calculation with finite operands to its result.
-/

namespace Reckoner.Expression

open Number Text

/-! ### Decimals are literals -/

theorem isNumeral_of_isDigit {c : Char} (h : c.isDigit = true) : isNumeral c = true := by
  rw [isNumeral, h, Bool.true_or]

theorem isNumeral_of_mem_fraction {part : List Char} (h : ∀ c ∈ part, c.isDigit = true) {c : Char}
    (hc : c ∈ fraction part) : isNumeral c = true := by
  rcases mem_fraction hc with rfl | hc
  · rfl
  · exact isNumeral_of_isDigit (h c hc)

/-- A decimal is written as a literal with its digits and places. -/
theorem exists_literal (d : Decimal) :
    ∃ l : Literal, l.chars = d.chars ∧ l.digits = d.digits ∧ l.places = d.places := by
  obtain ⟨whole, part, happend, hne, hlen, hchars⟩ := d.exists_chars_eq
  have hmem : ∀ c ∈ whole ++ part, c.isDigit = true := fun c hc =>
    isDigit_of_mem_padded (happend ▸ hc)
  have hwhole : ∀ c ∈ whole, c.isDigit = true := fun c hc => hmem c (List.mem_append_left _ hc)
  have hpart : ∀ c ∈ part, c.isDigit = true := fun c hc => hmem c (List.mem_append_right _ hc)
  have hliteral : isLiteral (whole ++ fraction part) = true := by
    obtain ⟨c, cs, rfl⟩ := List.exists_cons_of_ne_nil hne
    rw [isLiteral, Bool.and_eq_true, Bool.and_eq_true, decide_eq_true_eq, List.count_append,
      List.count_eq_zero.mpr (not_mem_of_isDigit hwhole), Nat.zero_add, List.all_eq_true]
    refine ⟨⟨fun e he => ?_, ?_⟩, count_fraction hpart⟩
    · rcases List.mem_append.mp he with he | he
      · exact isNumeral_of_isDigit (hwhole e he)
      · exact isNumeral_of_mem_fraction hpart he
    · exact List.any_eq_true.mpr ⟨c, List.mem_cons_self, hwhole c List.mem_cons_self⟩
  obtain ⟨l, hl⟩ : ∃ l : Literal, l.chars = whole ++ fraction part := ⟨⟨_, hliteral⟩, rfl⟩
  refine ⟨l, hl.trans hchars.symm, ?_, ?_⟩
  · rw [Literal.digits, hl, List.filter_append, List.filter_eq_self.mpr hwhole,
      filter_fraction hpart, happend]
    exact ofDigitChars_padded d
  · have hpoint : ∀ c ∈ whole, (c != '.') = true := fun c hc => by
      rw [bne_iff_ne]
      rintro rfl
      exact not_mem_of_isDigit hwhole hc
    rw [Literal.places, hl, List.dropWhile_append_of_pos hpoint, drop_fraction, hlen]

/-! ### Finite numbers -/

/-- The shortest decimal of a finite magnitude reads as the magnitude. -/
theorem exists_literal_shortest (r : Fin finiteCount) :
    ∃ l : Literal, l.chars = (shortest r).chars ∧ l.value = .finite false r := by
  obtain ⟨l, hchars, hdigits, hplaces⟩ := exists_literal (shortest r)
  refine ⟨l, hchars, ?_⟩
  rw [Literal.value, hdigits, hplaces, Nat.pow_eq, ofRatio, ofUnits,
    (roundsTo_shortest r).nearestRank_eq (Nat.pow_pos (by decide)), ofRank_of_lt r.isLt]

theorem value_literal (l : Literal) : (Derivation.literal l).value = l.value := by
  rw [Derivation.value, Derivation.fold, values]

theorem value_minus (d : Derivation) : (Derivation.sign .minus d).value = d.value.negate := by
  rw [Derivation.value, Derivation.fold, values]
  rfl

/-- A literal is an operand by itself. -/
theorem derives_literal (l : Literal) : Derives .atom (.literal l) (lexemes l.chars) := by
  have hnumeral : ∀ c ∈ l.chars, isNumeral c = true := fun c hc => l.isNumeral_of_mem hc
  cases hl : l.chars with
  | nil =>
    have h := l.wellFormed
    rw [hl] at h
    cases h
  | cons c cs =>
    rw [hl, List.forall_mem_cons] at hnumeral
    have hwell : (Lexeme.numerals c cs).WellFormed := hnumeral
    have hends : (Lexeme.numerals c cs).EndsBefore ([] : List Char).head? := trivial
    have hlex := lexemes_token hwell hends
    rw [List.append_nil, lexemes_nil, Lexeme.chars] at hlex
    rw [hlex]
    exact .literal hl

theorem lexemes_minus (cs : List Char) : lexemes ('-' :: cs) = .minus :: lexemes cs :=
  lexemes_token (l := .minus) trivial trivial

/-- A finite number is written as a literal, with a minus sign in front if it is negative. -/
theorem exists_chars_eq_withSign {x : Number} (h : x.isFinite = true) :
    ∃ l : Literal, x.chars = withSign x.signBit l.chars ∧
      x = if x.signBit then l.value.negate else l.value := by
  cases x with
  | nan | infinity => cases h
  | finite s r =>
    obtain ⟨l, hchars, hvalue⟩ := exists_literal_shortest r
    refine ⟨l, ?_, ?_⟩
    · rw [Number.chars, charsWith, hchars]
      rfl
    · rw [hvalue, signBit, negate]
      cases s <;> rfl

/-- The full text of a finite number is an operand of any operator, with the number as its value. -/
theorem exists_derives_chars {x : Number} (h : x.isFinite = true) :
    ∃ d : Derivation, Derives .signed d (lexemes x.chars) ∧ d.nesting ≤ 1 ∧ d.value = x := by
  obtain ⟨l, hchars, hvalue⟩ := exists_chars_eq_withSign h
  cases hs : x.signBit
  · rw [hs, if_neg Bool.false_ne_true] at hvalue
    rw [hs] at hchars
    refine ⟨.literal l, ?_, Nat.zero_le 1, ?_⟩
    · rw [hchars]
      exact .atom (derives_literal l)
    · rw [value_literal, hvalue]
  · rw [hs, if_pos rfl] at hvalue
    rw [hs] at hchars
    refine ⟨.sign .minus (.literal l), ?_, Nat.le_refl 1, ?_⟩
    · rw [hchars, withSign, if_pos rfl, lexemes_minus]
      exact .sign (s := .minus) (.atom (derives_literal l))
    · rw [value_minus, value_literal, hvalue]

/-- **Finite numbers read back.** The full text of a finite number is a literal, with a minus sign
in front if the sign bit is set, and evaluates to the number. -/
theorem evaluate_text {x : Number} (h : x.isFinite = true) :
    (∃ l : Literal, x.text.toList = withSign x.signBit l.chars) ∧ evaluate x.text = .ok x := by
  obtain ⟨l, hchars, -⟩ := exists_chars_eq_withSign h
  obtain ⟨d, hd, hnesting, hvalue⟩ := exists_derives_chars h
  refine ⟨⟨l, by rw [toList_text, hchars]⟩, evaluate_eq_ok_iff_derives.mpr ⟨d, ?_, ?_, hvalue⟩⟩
  · rw [toList_text]
    exact hd.widen (by decide)
  · exact Nat.le_trans hnesting (by decide)

/-- The largest number below zero. -/
theorem evaluate_text_smallest :
    (∃ l : Literal, (ofBits 0x8000000000000001).text.toList = withSign true l.chars) ∧
      evaluate (ofBits 0x8000000000000001).text = .ok (ofBits 0x8000000000000001) :=
  evaluate_text (x := ofBits 0x8000000000000001) (by decide +kernel)

/-- Zero keeps its sign. -/
example : (ofBits 0x8000000000000000).text = "-0" := by decide +kernel

/-! ### Calculations -/

theorem isFinite_of_not_isInfix {x : Number} (hinf : ¬ "Infinity".toList <:+: x.chars)
    (hnan : ¬ "NaN".toList <:+: x.chars) : x.isFinite = true := by
  cases x with
  | nan => exact absurd (List.infix_rfl) hnan
  | infinity s =>
    refine absurd ?_ hinf
    cases s
    · exact List.infix_rfl
    · exact (List.suffix_cons '-' "Infinity".toList).isInfix
  | finite => rfl

/-- The sign by which a calculation shows its operator is one of the tokens of the operator. -/
theorem exists_lexemes_symbol (op : Operator) (cs : List Char) :
    ∃ l ∈ op.lexemes, lexemes (op.symbol.toList ++ ' ' :: cs) = l :: lexemes cs := by
  have hblank : ∀ l : Lexeme, l.WellFormed → lexemes (l.chars ++ ' ' :: cs) = l :: lexemes cs := by
    intro l hl
    have hends : l.EndsBefore (' ' :: cs).head? := l.endsBefore_of_isBlank isBlank_space
    rw [lexemes_token hl hends, lexemes_blank isBlank_space]
  cases op with
  | plus => exact ⟨.plus, by decide, hblank .plus trivial⟩
  | minus => exact ⟨.minus, by decide, hblank .minus trivial⟩
  | times => exact ⟨.star, by decide, hblank .star trivial⟩
  | dividedBy => exact ⟨.slash, by decide, hblank .slash trivial⟩
  | modulo => exact ⟨.percent, by decide, hblank .percent trivial⟩
  | power => exact ⟨.caret, by decide, hblank .caret trivial⟩

theorem toList_text_binary (x : Number) (op : Operator) (y : Number) :
    (Calculation.binary x op y).text.toList =
      x.chars ++ ' ' :: (op.symbol.toList ++ ' ' :: y.chars) := by
  simp [Calculation.text]

theorem toList_text_negation (x : Number) :
    (Calculation.negation x).text.toList = '-' :: x.chars := by
  simp [Calculation.text]

/-- A calculation with finite operands is shown as an expression with its result as the value. -/
theorem Calculation.exists_derives {c : Calculation} (hinf : ¬ "Infinity".toList <:+: c.text.toList)
    (hnan : ¬ "NaN".toList <:+: c.text.toList) :
    ∃ d : Derivation, Derives .expression d (lexemes c.text.toList) ∧ d.nesting ≤ 2 ∧
      d.value = c.result := by
  cases c with
  | negation x =>
    rw [toList_text_negation] at hinf hnan ⊢
    have hx : x.chars <:+: '-' :: x.chars := (List.suffix_cons '-' x.chars).isInfix
    obtain ⟨d, hd, hnesting, rfl⟩ := exists_derives_chars
      (isFinite_of_not_isInfix (fun h => hinf (h.trans hx)) fun h => hnan (h.trans hx))
    refine ⟨.sign .minus d, ?_, Nat.succ_le_succ hnesting, rfl⟩
    rw [lexemes_minus]
    exact (Derives.sign (s := .minus) hd).widen (by decide)
  | binary x op y =>
    rw [toList_text_binary] at hinf hnan ⊢
    have hx : x.chars <:+: x.chars ++ ' ' :: (op.symbol.toList ++ ' ' :: y.chars) :=
      (List.prefix_append _ _).isInfix
    have hy : y.chars <:+: x.chars ++ ' ' :: (op.symbol.toList ++ ' ' :: y.chars) :=
      ⟨x.chars ++ ' ' :: (op.symbol.toList ++ [' ']), [], by simp⟩
    obtain ⟨d, hd, hdnesting, rfl⟩ := exists_derives_chars
      (isFinite_of_not_isInfix (fun h => hinf (h.trans hx)) fun h => hnan (h.trans hx))
    obtain ⟨e, he, henesting, rfl⟩ := exists_derives_chars
      (isFinite_of_not_isInfix (fun h => hinf (h.trans hy)) fun h => hnan (h.trans hy))
    obtain ⟨l, hl, hlex⟩ := exists_lexemes_symbol op e.value.chars
    refine ⟨.binary d op e, ?_, ?_, rfl⟩
    · rw [lexemes_append_blank isBlank_space, hlex]
      -- a signed operand is narrow enough for either side of every operator
      have hleft : Category.signed.level ≤ op.leftPart.level := by cases op <;> decide
      have hright : Category.signed.level ≤ op.rightPart.level := by cases op <;> decide
      have hwhole : op.whole.level ≤ Category.expression.level := by cases op <;> decide
      exact (Derives.binary (hd.widen hleft) hl (he.widen hright)).widen hwhole
    · rw [Derivation.nesting]
      split_ifs <;> omega

/-- **Every calculation is itself a correct expression.** What an evaluation lists as a calculation
evaluates to what it lists as its result, unless an operand is infinite or not a number. -/
theorem evaluate_text_of_mem_steps (s : String) : ∀ c ∈ (work true s).steps,
    ¬ "Infinity".toList <:+: c.text.toList → ¬ "NaN".toList <:+: c.text.toList →
      evaluate c.text = .ok c.result := by
  intro c _ hinf hnan
  obtain ⟨d, hd, hnesting, hvalue⟩ := c.exists_derives hinf hnan
  exact evaluate_eq_ok_iff_derives.mpr ⟨d, hd, Nat.le_trans hnesting (by decide), hvalue⟩

/-- A sign binds its operand more tightly than the power does. -/
theorem evaluate_text_of_mem_steps_power :
    .binary (.ofBits 0xC000000000000000) .power (.ofBits 0xBFF0000000000000) ∈
        (work true "-2**-1").steps ∧
      evaluate "-2 ^ -1" =
        .ok (Number.pow (.ofBits 0xC000000000000000) (.ofBits 0xBFF0000000000000)) := by
  have hmem : .binary (.ofBits 0xC000000000000000) .power (.ofBits 0xBFF0000000000000) ∈
      (work true "-2**-1").steps := by decide +kernel
  have htext : (Calculation.binary (.ofBits 0xC000000000000000) .power
      (.ofBits 0xBFF0000000000000)).text = "-2 ^ -1" := by decide +kernel
  have h := evaluate_text_of_mem_steps "-2**-1" _ hmem
  rw [htext, Calculation.result, Operator.apply] at h
  exact ⟨hmem, h (by decide +kernel) (by decide +kernel)⟩

end Reckoner.Expression
