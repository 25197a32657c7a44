import Reckoner.Expression.Spacing
import Reckoner.Proofs.Expression.Lexemes
import Reckoner.Proofs.Text.Words

/-!
# Regular spacing keeps the tokens

Spreading a text out puts blanks between its tokens and never into one (`spread_token`), and joining
its words again only replaces blanks by others (`lexemes_unwords_words`). So the spaced form of a
text has the tokens of the text without its blanks (`lexemes_spaced`). These are the tokens of the
text itself if no two neighbours run together, which is so in an expression. Hence the spaced form
of an expression has the same value and the same calculations.
-/

namespace Reckoner.Expression

open Text

variable {cs ds : List Char}

/-! ### Texts that can be exchanged behind a token -/

/-- Behind a token a text can be exchanged for one with the same tokens that begins in the same way
or with a blank. -/
theorem lexemes_append_congr {l : Lexeme} (hl : l.WellFormed) (hends : l.EndsBefore cs.head?)
    (hhead : ds.head? = cs.head? ∨ ds.head? = some ' ') (h : lexemes ds = lexemes cs) :
    lexemes (l.chars ++ ds) = lexemes (l.chars ++ cs) := by
  have hends' : l.EndsBefore ds.head? := by
    rcases hhead with hhead | hhead
    · rw [hhead]
      exact hends
    · rw [hhead]
      exact l.endsBefore_of_isBlank isBlank_space
  rw [lexemes_token hl hends, lexemes_token hl hends', h]

/-- Joining the words of a text keeps its tokens. -/
theorem lexemes_unwords_words (cs : List Char) : lexemes (unwords (words cs)) = lexemes cs := by
  have key : ∀ {n ts cs}, Cut n ts cs → lexemes (unwords (words cs)) = lexemes cs := by
    intro n ts cs h
    induction h with
    | done => rfl
    | blank hc _ ih => rw [words_blank hc, ih, lexemes_blank hc]
    | @token n l ts cs hl hends _ ih =>
      rw [unwords_words_append l.chars_ne_nil fun c hc => hl.isBlank_of_mem hc]
      rcases joined_cases cs with ⟨hj, hhead⟩ | ⟨hj, -⟩ | ⟨hj, hw⟩
      · exact lexemes_append_congr hl hends (Or.inl hhead) (by rw [hj, ih])
      · refine lexemes_append_congr hl hends (Or.inr (by rw [hj]; rfl)) ?_
        rw [hj, lexemes_blank isBlank_space, ih]
      · -- nothing but blanks follows
        rw [hw, lexemes_nil] at ih
        have hends' : l.EndsBefore ([] : List Char).head? := l.endsBefore_none
        rw [hj, lexemes_token hl hends', lexemes_token hl hends, ← ih, lexemes_nil]
  exact key (Cut.cut_tokens cs)

/-! ### Spreading a text out -/

/-- Whether a character is taken for a part of an operand. -/
def IsOperandChar (c : Char) : Prop := isOperatorChar c = false ∧ c ≠ '('

/-- So are the characters with a property that no operator and no opening parenthesis has. -/
theorem isOperandChar_of {p : Char → Bool} {c : Char} (hc : p c = true)
    (h : ['(', '+', '-', '*', '/', '^', '%'].all (!p ·) = true) : IsOperandChar c := by
  have hne : ∀ d ∈ ['(', '+', '-', '*', '/', '^', '%'], c ≠ d := by
    rintro d hd rfl
    have hc' := List.all_eq_true.mp h c hd
    rw [hc] at hc'
    cases hc'
  constructor
  · simpa [isOperatorChar, and_assoc] using fun d hd => hne d (List.mem_cons_of_mem '(' hd)
  · exact hne '(' List.mem_cons_self

theorem spread_operand {c : Char} (hc : IsOperandChar c) (b : Bool) (cs : List Char) :
    spread b (c :: cs) = c :: spread true cs := by
  have hs : c ≠ '*' := by
    rintro rfl
    exact absurd hc.1 (by decide)
  have hsign : (c == '+' || c == '-') = false := by
    have h := hc.1
    simp only [isOperatorChar, Bool.or_eq_false_iff] at h ⊢
    exact h.1.1.1.1
  rw [spread.eq_3 b c cs fun _ h => absurd h hs, hsign, Bool.false_and, if_neg Bool.false_ne_true,
    hc.1, if_neg Bool.false_ne_true, if_neg hc.2]

/-- A run of such characters is kept as it is. -/
theorem spread_operands (hne : ds ≠ []) (hds : ∀ d ∈ ds, IsOperandChar d) (b : Bool)
    (cs : List Char) : spread b (ds ++ cs) = ds ++ spread true cs := by
  induction ds generalizing b with
  | nil => exact absurd rfl hne
  | cons d ds ih =>
    rw [List.cons_append, spread_operand (hds d List.mem_cons_self), List.cons_append]
    cases ds with
    | nil => rfl
    | cons e es => rw [ih (List.cons_ne_nil _ _) fun a ha => hds a (List.mem_cons_of_mem d ha)]

theorem spread_opening (b : Bool) (cs : List Char) :
    spread b ('(' :: cs) = '(' :: spread false cs := rfl

theorem spread_doubleStar (b : Bool) (cs : List Char) :
    spread b ('*' :: '*' :: cs) = ' ' :: '*' :: '*' :: ' ' :: spread false cs := rfl

/-- An operator is set apart, unless it is a sign. -/
theorem spread_operator {c : Char} (hc : isOperatorChar c = true)
    (hs : c = '*' → cs.head? ≠ some '*') (b : Bool) :
    spread b (c :: cs) = c :: spread false cs ∨
      spread b (c :: cs) = ' ' :: c :: ' ' :: spread false cs := by
  have hne : ∀ ds, c = '*' → cs = '*' :: ds → False := fun ds h hcs => hs h (by rw [hcs]; rfl)
  rw [spread.eq_3 b c cs hne, if_pos hc]
  split_ifs
  · exact Or.inl rfl
  · exact Or.inr rfl

/-- Behind an operand every operator is set apart. -/
theorem spread_true_operator {c : Char} (hc : isOperatorChar c = true) (cs : List Char) :
    ∃ ds, spread true (c :: cs) = ' ' :: ds ∧ startsWord ds = true := by
  by_cases hs : c = '*' ∧ cs.head? = some '*'
  · obtain ⟨rfl, hcs⟩ := hs
    obtain ⟨cs, rfl⟩ := List.head?_eq_some_iff.mp hcs
    exact ⟨_, spread_doubleStar true cs, rfl⟩
  · have hne : ∀ ds, c = '*' → cs = '*' :: ds → False := fun ds h hcs => hs ⟨h, by rw [hcs]; rfl⟩
    have hblank : isBlank c = false := by
      by_contra hb
      have hop : IsOperandChar c := isOperandChar_of (Bool.not_eq_false _ ▸ hb) (by decide)
      cases hc.symm.trans hop.1
    rw [spread.eq_3 true c cs hne, Bool.not_true, Bool.and_false, if_neg Bool.false_ne_true,
      if_pos hc]
    exact ⟨_, rfl, by simp [startsWord, hblank]⟩

/-- Blanks are put around a token, or nothing is. -/
theorem spread_token {l : Lexeme} (hl : l.WellFormed) (hends : l.EndsBefore cs.head?) (b : Bool) :
    ∃ b', spread b (l.chars ++ cs) = l.chars ++ spread b' cs ∨
      spread b (l.chars ++ cs) = ' ' :: (l.chars ++ ' ' :: spread b' cs) := by
  cases l with
  | numerals c ds =>
    have hnumeral : ∀ d ∈ c :: ds, isNumeral d = true := List.forall_mem_cons.mpr hl
    have hds : ∀ d ∈ c :: ds, IsOperandChar d := fun d hd =>
      isOperandChar_of (hnumeral d hd) (by decide)
    exact ⟨true, Or.inl (spread_operands (List.cons_ne_nil c ds) hds b cs)⟩
  | star =>
    have hs : cs.head? ≠ some '*' := by
      intro h
      rw [h] at hends
      exact hends rfl
    exact ⟨false, spread_operator rfl (fun _ => hs) b⟩
  | plus | minus | slash | percent | caret =>
    exact ⟨false, spread_operator rfl (fun h => absurd h (by decide)) b⟩
  | doubleStar => exact ⟨false, Or.inr (spread_doubleStar b cs)⟩
  | opening => exact ⟨false, Or.inl (spread_opening b cs)⟩
  | closing => exact ⟨true, Or.inl (spread_operand ⟨rfl, by decide⟩ b cs)⟩
  | other c =>
    have hop : IsOperandChar c :=
      isOperandChar_of (p := fun d => d ≠ '*' && Lexeme.ofChar d = .other d)
        (by simp [hl.2.1, hl.2.2.2]) (by decide)
    exact ⟨true, Or.inl (spread_operand hop b cs)⟩

theorem spread_blank {c : Char} (hc : isBlank c = true) (b : Bool) (cs : List Char) :
    spread b (c :: cs) = c :: spread true cs :=
  spread_operand (isOperandChar_of hc (by decide)) b cs

/-- A text that is spread out begins as before or with a space. -/
theorem head?_spread (b : Bool) (cs : List Char) :
    (spread b cs).head? = cs.head? ∨ (spread b cs).head? = some ' ' := by
  cases cs with
  | nil => exact Or.inl rfl
  | cons c cs =>
    by_cases hc : isBlank c = true
    · rw [spread_blank hc]
      exact Or.inl rfl
    · obtain ⟨l, rest, hl, hends, heq⟩ := Cut.exists_token c cs (Bool.not_eq_true _ ▸ hc)
      rw [heq]
      obtain ⟨b', h | h⟩ := spread_token hl hends b
      · rw [h, l.head?_chars_append, l.head?_chars_append]
        exact Or.inl rfl
      · rw [h]
        exact Or.inr rfl

/-- Spreading a text out keeps its tokens. -/
theorem lexemes_spread (b : Bool) (cs : List Char) : lexemes (spread b cs) = lexemes cs := by
  have key : ∀ {n ts cs}, Cut n ts cs → ∀ b, lexemes (spread b cs) = lexemes cs := by
    intro n ts cs h
    induction h with
    | done => exact fun _ => rfl
    | blank hc _ ih =>
      intro b
      rw [spread_blank hc, lexemes_blank hc, ih, lexemes_blank hc]
    | @token n l ts cs hl hends _ ih =>
      intro b
      obtain ⟨b', h | h⟩ := spread_token hl hends b
      · rw [h]
        exact lexemes_append_congr hl hends (head?_spread b' cs) (ih b')
      · rw [h, lexemes_blank isBlank_space]
        refine lexemes_append_congr hl hends (Or.inr rfl) ?_
        rw [lexemes_blank isBlank_space, ih b']
  exact key (Cut.cut_tokens cs) b

/-! ### The spaced form -/

/-- The spaced form has the tokens of the text without its blanks. -/
theorem lexemes_spaced (cs : List Char) : lexemes (spaced cs) = lexemes (unblanked cs) := by
  rw [spaced, lexemes_unwords_words, lexemes_spread, unblanked]

/-- It differs from the text in its blanks only. -/
theorem unblanked_spaced (cs : List Char) : unblanked (spaced cs) = unblanked cs := by
  calc unblanked (spaced cs) = (lexemes (spaced cs)).flatMap Lexeme.chars :=
        unblanked_eq_flatMap_lexemes _
    _ = unblanked (unblanked cs) := by rw [lexemes_spaced, ← unblanked_eq_flatMap_lexemes]
    _ = unblanked cs := unblanked_of_not_blank fun _ => isBlank_of_mem_unblanked

/-- It has no blanks around it. -/
theorem trim_spaced (cs : List Char) : trim (spaced cs) = spaced cs := trim_unwords_words _

/-- The spaced form of an expression has the tokens of the expression. -/
theorem lexemes_spacedText {s : String} (p : Parse s.toList) :
    lexemes (spacedText s).toList = lexemes s.toList := by
  rw [spacedText, String.toList_ofList, lexemes_spaced,
    lexemes_unblanked p.derives_lexemes.isChain_apart]

/-- **Regular spacing keeps the meaning.** The spaced form of an expression is an expression, with
the same value and the same calculations. -/
theorem evaluate_spacedText {s : String} {v : Number} (h : evaluate s = .ok v) :
    evaluate (spacedText s) = .ok v ∧ (work true (spacedText s)).steps = (work true s).steps := by
  obtain ⟨p, rfl⟩ := exists_parse h
  have hd : Derives .expression p.tree (lexemes (spacedText s).toList) :=
    (lexemes_spacedText p).symm ▸ p.derives_lexemes
  constructor
  · exact evaluate_eq_ok_iff_derives.mpr ⟨p.tree, hd, p.nesting_le, rfl⟩
  · rw [steps_work_of_derives hd p.nesting_le, steps_work p]

/-- Signs keep to their operands. -/
theorem evaluate_spacedText_signs :
    spacedText "2*- (8%3)- +1" = "2 * -(8 % 3) - +1" ∧
      evaluate "2 * -(8 % 3) - +1" = .ok (.ofBits 0xC014000000000000) ∧
      (work true "2 * -(8 % 3) - +1").steps = (work true "2*- (8%3)- +1").steps := by
  have hs : spacedText "2*- (8%3)- +1" = "2 * -(8 % 3) - +1" := by decide +kernel
  have h := evaluate_spacedText (s := "2*- (8%3)- +1") (v := .ofBits 0xC014000000000000)
    (by decide +kernel)
  rw [hs] at h
  exact ⟨hs, h⟩

end Reckoner.Expression
