import Reckoner.Expression.Spacing
import Reckoner.Proofs.Expression.Lexemes

/-!
# Texts that are expressions

A text is accepted if it is an expression, and two texts are alike if both are refused or both have
the same value. Nothing but blanks, literals, operators, signs and parentheses stands in an accepted
text (`Accepted.mem_cases`).

Texts with the same tokens are alike. Dropping the blanks of a text keeps the tokens of an
expression, but it can make an expression of a text that is none; this is the only way in which a
text and the same text without its blanks can be unlike (`alike_iff_of_lexemes_unblanked`).
-/

namespace Reckoner.Expression

open Text

/-- Whether a text is an expression. -/
def Accepted (cs : List Char) : Prop := ∃ v, evaluate (String.ofList cs) = .ok v

/-- Whether two texts have the same value or are both refused. -/
def Alike (cs ds : List Char) : Prop :=
  ∀ v, evaluate (String.ofList cs) = .ok v ↔ evaluate (String.ofList ds) = .ok v

/-- Whether a text begins with a sign. -/
def Signed (cs : List Char) : Prop := cs.head? = some '+' ∨ cs.head? = some '-'

variable {c : Char} {cs ds : List Char}

/-! ### How expressions begin -/

theorem Accepted.exists_derives (h : Accepted cs) :
    ∃ d, Derives .expression d (lexemes cs) := by
  obtain ⟨v, hv⟩ := h
  obtain ⟨d, hd, -⟩ := evaluate_eq_ok_iff_derives.mp hv
  rw [String.toList_ofList] at hd
  exact ⟨d, hd⟩

/-- Only a literal, a sign or a parenthesis can begin an expression. -/
theorem Accepted.head (h : Accepted (c :: cs)) (hc : isBlank c = false) :
    isNumeral c = true ∨ c ∈ ['+', '-', '('] := by
  obtain ⟨d, hd⟩ := h.exists_derives
  obtain ⟨l, ms, hls, hl⟩ := hd.exists_head
  obtain ⟨m, us, htokens, -, rfl⟩ := (Cut.cut_tokens (c :: cs)).exists_head hc
  rw [lexemes, htokens, List.map_cons, List.cons.injEq] at hls
  obtain ⟨rfl, -⟩ := hls
  exact hl

/-- An expression that begins with an operator begins with a sign. -/
theorem Accepted.signed (h : Accepted cs) (ho : ∃ o ∈ cs.head?, isOperatorChar o = true) :
    Signed cs := by
  obtain ⟨o, ho, hop⟩ := ho
  obtain ⟨ds, rfl⟩ := List.head?_eq_some_iff.mp ho
  have hmem : o ∈ ['+', '-', '*', '/', '^', '%'] := by
    simpa [isOperatorChar, or_assoc] using hop
  simp only [List.mem_cons, List.not_mem_nil, or_false] at hmem
  rcases hmem with rfl | rfl | rfl | rfl | rfl | rfl
  · exact Or.inl rfl
  · exact Or.inr rfl
  all_goals exact absurd (h.head (by decide)) (by decide)

theorem Signed.operator (h : Signed cs) : ∃ o ∈ cs.head?, isOperatorChar o = true := by
  rcases h with h | h
  · exact ⟨'+', h, rfl⟩
  · exact ⟨'-', h, rfl⟩

/-! ### What stands in an expression -/

/-- Every token of an expression has a meaning. -/
theorem Derives.ne_other {k : Category} {d : Derivation} {ls : List Lexeme} (h : Derives k d ls)
    {l : Lexeme} (hl : l ∈ ls) (c : Char) : l ≠ .other c := by
  have hoperator : ∀ {op : Operator} {l : Lexeme}, l ∈ op.lexemes → l ≠ .other c := by
    rintro op _ hop rfl
    cases op <;> simp [Operator.lexemes] at hop
  induction h with
  | literal =>
    rw [List.mem_singleton.mp hl]
    exact Lexeme.noConfusion
  | group _ ih =>
    rw [List.cons_append, List.mem_cons, List.mem_append, List.mem_singleton] at hl
    rcases hl with rfl | hl | rfl
    · exact Lexeme.noConfusion
    · exact ih hl
    · exact Lexeme.noConfusion
  | @sign s _ _ _ ih =>
    rcases List.mem_cons.mp hl with rfl | hl
    · cases s <;> exact Lexeme.noConfusion
    · exact ih hl
  | atom _ ih | signed _ ih | factor _ ih | term _ ih => exact ih hl
  | power _ hop _ ih ih' | product _ _ hop _ ih ih' | sum _ _ hop _ ih ih' =>
    rw [List.mem_append, List.mem_cons] at hl
    rcases hl with hl | rfl | hl
    · exact ih hl
    · exact hoperator hop
    · exact ih' hl

/-- What stands in an expression is a blank or a character of a literal, an operator, a sign or a
parenthesis. -/
theorem Accepted.mem_cases (h : Accepted cs) (hc : c ∈ cs) :
    isBlank c = true ∨ isNumeral c = true ∨ c ∈ "+-*/%^()".toList := by
  by_cases hb : isBlank c = true
  · exact Or.inl hb
  · refine Or.inr ?_
    have hmem : c ∈ unblanked cs := List.mem_filter.mpr ⟨hc, by simpa using hb⟩
    rw [unblanked_eq_flatMap_lexemes, List.mem_flatMap] at hmem
    obtain ⟨l, hl, hcl⟩ := hmem
    obtain ⟨d, hd⟩ := h.exists_derives
    have hwf := wellFormed_of_mem_lexemes hl
    cases l with
    | numerals e es =>
      exact Or.inl ((List.forall_mem_cons.mpr hwf : ∀ d ∈ e :: es, isNumeral d = true) c hcl)
    | other e => exact absurd rfl (hd.ne_other hl e)
    | doubleStar =>
      have hstar : c = '*' := by simpa [Lexeme.chars] using hcl
      rw [hstar]
      exact Or.inr (by decide)
    | _ =>
      rw [Lexeme.chars, List.mem_singleton] at hcl
      rw [hcl]
      exact Or.inr (by decide)

/-! ### Texts that are alike -/

theorem alike_of_lexemes (h : lexemes cs = lexemes ds) : Alike cs ds := by
  intro v
  refine evaluate_congr ?_
  rw [String.toList_ofList, String.toList_ofList, h]

theorem Alike.accepted_iff (h : Alike cs ds) : Accepted cs ↔ Accepted ds := exists_congr h

theorem alike_comm : Alike cs ds ↔ Alike ds cs := forall_congr' fun _ => Iff.comm

/-- A text that is refused is like those that are refused. -/
theorem alike_iff_of_not_accepted (h : ¬ Accepted cs) : Alike cs ds ↔ ¬ Accepted ds := by
  refine ⟨fun halike => halike.accepted_iff.not.mp h, fun hds v => ?_⟩
  exact iff_of_false (fun hv => h ⟨v, hv⟩) fun hv => hds ⟨v, hv⟩

/-- Without its blanks an expression has the same tokens. -/
theorem Accepted.lexemes_unblanked (h : Accepted cs) : lexemes (unblanked cs) = lexemes cs := by
  obtain ⟨d, hd⟩ := h.exists_derives
  exact Expression.lexemes_unblanked hd.isChain_apart

/-- A text is like itself without its blanks unless it only becomes an expression without them. -/
theorem alike_iff_of_lexemes_unblanked (h : lexemes ds = lexemes (unblanked cs)) :
    Alike cs ds ↔ ¬ (¬ Accepted cs ∧ Accepted (unblanked cs)) := by
  by_cases hacc : Accepted cs
  · refine iff_of_true (alike_of_lexemes ?_) fun hrefused => hrefused.1 hacc
    rw [h, hacc.lexemes_unblanked]
  · rw [alike_iff_of_not_accepted hacc, (alike_of_lexemes h).accepted_iff, and_iff_right hacc]

end Reckoner.Expression
