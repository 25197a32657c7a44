import Reckoner.Expression.Highlight
import Reckoner.Proofs.Expression.Accepted
import Reckoner.Proofs.Expression.Faults
import Reckoner.Proofs.Expression.Spacing
import Reckoner.Proofs.Text.Unwords

/-!
# Colours, tokens and literals

A coloured text is the text, cut at the maximal runs of digits and points. So wherever the scanner
finds a run, there is one span with the style of numerals, and no other token gives such a span
(`numerals_highlight`). In an expression every run is a literal, and the reader takes the literals
in the order in which they stand (`Derives.map_chars_gathered`). Hence the numerals of the coloured
spaced form of an expression are the literals that are read, and nothing in it is marked as invalid
(`highlight_agrees`).
-/

namespace Reckoner.Expression

open Screen Text

variable {line : Style} {c : Char} {cs ds es run : List Char} {n : Nat}

/-! ### Runs of digits and points -/

/-- Induction along a text, run by run and otherwise character by character. -/
@[elab_as_elim]
theorem run_induction {motive : List Char → Prop} (nil : motive [])
    (char : ∀ c cs, isNumeral c = false → motive cs → motive (c :: cs))
    (run : ∀ run cs, run ≠ [] → (∀ c ∈ run, isNumeral c = true) →
      (∀ c, cs.head? = some c → isNumeral c = false) → motive cs → motive (run ++ cs))
    (cs : List Char) : motive cs := by
  match cs with
  | [] => exact nil
  | c :: cs =>
    cases hc : isNumeral c with
    | false => exact char c cs hc (run_induction nil char run cs)
    | true =>
      have hrun : ∀ d ∈ c :: cs.takeWhile isNumeral, isNumeral d = true :=
        List.forall_mem_cons.2 ⟨hc, fun d hd => List.mem_takeWhile_imp hd⟩
      have hnext : ∀ d, (cs.dropWhile isNumeral).head? = some d → isNumeral d = false := by
        intro d hd
        have h := List.head?_dropWhile_not isNumeral cs
        rw [hd] at h
        exact h
      have hlength : (cs.dropWhile isNumeral).length < (c :: cs).length :=
        Nat.lt_succ_of_le (List.dropWhile_suffix isNumeral).length_le
      have hrest := run_induction nil char run (cs.dropWhile isNumeral)
      -- the run and what is left of the text make up the text again
      have h := run _ _ (List.cons_ne_nil c _) hrun hnext hrest
      rwa [List.cons_append, List.takeWhile_append_dropWhile] at h
termination_by cs.length
decreasing_by
  · exact Nat.lt_succ_self _
  · exact hlength

/-- No run goes on from one text into the next. -/
def Parted (ds cs : List Char) : Prop :=
  ∀ c d, ds.getLast? = some c → cs.head? = some d → isNumeral c = true → isNumeral d = false

theorem parted_of_getLast? (h : ∀ c, ds.getLast? = some c → isNumeral c = false)
    (cs : List Char) : Parted ds cs := fun c _ hc _ hn => by cases (h c hc).symm.trans hn

theorem parted_of_head? (ds : List Char) (h : ∀ c, cs.head? = some c → isNumeral c = false) :
    Parted ds cs := fun _ d _ hd _ => h d hd

theorem Parted.of_append (h : Parted (ds ++ es) cs) : Parted es cs := by
  intro c d hc
  have hes : es ≠ [] := by rintro rfl; cases hc
  exact h c d (by rwa [List.getLast?_append_of_ne_nil _ hes])

/-- A run stays where it is if the text goes on in front and no run goes on into the text. -/
theorem RunsAt.append_left (h : RunsAt cs n run) (hds : Parted ds cs) :
    RunsAt (ds ++ cs) (ds.length + n) run := by
  obtain ⟨before, after, rfl, rfl, hne, hrun, hbefore, hafter⟩ := h
  refine ⟨ds ++ before, after, by rw [List.append_assoc], List.length_append, hne, hrun, ?_, hafter⟩
  intro c hc
  cases before with
  | nil =>
    rw [List.append_nil] at hc
    obtain ⟨d, run, rfl⟩ := List.exists_cons_of_ne_nil hne
    by_contra hn
    have hd : isNumeral d = false := hds c d hc rfl (Bool.not_eq_false _ ▸ hn)
    cases (hrun d List.mem_cons_self).symm.trans hd
  | cons d before =>
    rw [List.getLast?_append_of_ne_nil _ (List.cons_ne_nil d before)] at hc
    exact hbefore c hc

/-! ### The spans of a text -/

/-- The text of spans. -/
def plainText (spans : List Span) : List Char := spans.flatMap Span.text

@[simp]
theorem plainText_nil : plainText [] = [] := rfl

@[simp]
theorem plainText_cons (s : Span) (spans : List Span) :
    plainText (s :: spans) = s.text ++ plainText spans := List.flatMap_cons

theorem highlight_char (hc : isNumeral c = false) :
    highlight line (c :: cs) = ⟨[c], charStyle line c⟩ :: highlight line cs := by
  rw [highlight, hc, if_neg Bool.false_ne_true]

theorem highlight_chars (hds : ∀ c ∈ ds, isNumeral c = false) (cs : List Char) :
    highlight line (ds ++ cs) = (ds.map fun c => ⟨[c], charStyle line c⟩) ++ highlight line cs := by
  induction ds with
  | nil => rfl
  | cons d ds ih =>
    rw [List.cons_append, highlight_char (hds d List.mem_cons_self),
      ih fun c hc => hds c (List.mem_cons_of_mem d hc)]
    rfl

/-- A run is one span if it is followed by none of its kind. -/
theorem highlight_run (hne : run ≠ []) (hrun : ∀ c ∈ run, isNumeral c = true)
    (hnext : ∀ c, cs.head? = some c → isNumeral c = false) :
    highlight line (run ++ cs) = ⟨run, numeralStyle⟩ :: highlight line cs := by
  induction run with
  | nil => exact absurd rfl hne
  | cons c run ih =>
    have hc : isNumeral c = true := hrun c List.mem_cons_self
    rw [List.cons_append, highlight, if_pos hc]
    cases run with
    | nil =>
      cases cs with
      | nil => rfl
      | cons d cs =>
        -- the span behind is another character, so the last one of the run does not join it
        have hd : isNumeral d = false := hnext d rfl
        rw [List.nil_append, highlight_char hd, consNumeral, if_neg]
        rintro ⟨-, h⟩
        rw [List.head?_cons, Option.any_some, hd] at h
        cases h
    | cons d run =>
      have hd : isNumeral d = true := hrun d (by simp)
      rw [ih (List.cons_ne_nil d run) fun e he => hrun e (List.mem_cons_of_mem c he), consNumeral,
        if_pos ⟨rfl, by rw [List.head?_cons, Option.any_some, hd]⟩]

/-- Colouring changes nothing but the look. -/
theorem plainText_highlight (line : Style) (cs : List Char) :
    plainText (highlight line cs) = cs := by
  induction cs using run_induction with
  | nil => rfl
  | char c cs hc ih => rw [highlight_char hc, plainText_cons, ih, List.singleton_append]
  | run run cs hne hrun hnext ih => rw [highlight_run hne hrun hnext, plainText_cons, ih]

/-- A span is a numeral or a single other character of the text. -/
theorem mem_highlight {s : Span} (hs : s ∈ highlight line cs) :
    s.style = numeralStyle ∨ ∃ c ∈ cs, isNumeral c = false ∧ s = ⟨[c], charStyle line c⟩ := by
  induction cs using run_induction with
  | nil => cases hs
  | char c cs hc ih =>
    rw [highlight_char hc, List.mem_cons] at hs
    obtain rfl | hs := hs
    · exact .inr ⟨c, List.mem_cons_self, hc, rfl⟩
    · exact (ih hs).imp_right fun ⟨d, hd, h⟩ => ⟨d, List.mem_cons_of_mem c hd, h⟩
  | run run cs hne hrun hnext ih =>
    rw [highlight_run hne hrun hnext, List.mem_cons] at hs
    obtain rfl | hs := hs
    · exact .inl rfl
    · exact (ih hs).imp_right fun ⟨d, hd, h⟩ => ⟨d, List.mem_append_right run hd, h⟩

theorem charStyle_ne_numeralStyle (hline : line ≠ numeralStyle) (c : Char) :
    charStyle line c ≠ numeralStyle := by
  rw [charStyle]
  split_ifs
  · decide
  · exact hline
  · decide
  · decide

/-- Texts that no run connects are coloured one by one. -/
theorem highlight_append (h : Parted ds cs) :
    highlight line (ds ++ cs) = highlight line ds ++ highlight line cs := by
  induction ds using run_induction with
  | nil => rfl
  | char c ds hc ih =>
    have h' : Parted ds cs := Parted.of_append (show Parted ([c] ++ ds) cs from h)
    rw [List.cons_append, highlight_char hc, highlight_char hc, ih h', List.cons_append]
  | run run ds hne hrun hnext ih =>
    have hends : ∀ d, (ds ++ cs).head? = some d → isNumeral d = false := by
      cases ds with
      | nil =>
        obtain ⟨c, hc⟩ := Option.ne_none_iff_exists'.1 (mt List.getLast?_eq_none_iff.1 hne)
        rw [List.append_nil] at h
        exact fun d hd => h c d hc hd (hrun c (List.mem_of_getLast? hc))
      | cons d ds => exact hnext
    rw [List.append_assoc, highlight_run hne hrun hends, highlight_run hne hrun hnext,
      ih h.of_append, List.cons_append]

/-- The spans with the style of numerals are the maximal runs, each at its place. -/
theorem runsAt_iff (hline : line ≠ numeralStyle) : RunsAt cs n run ↔
    ∃ pre post, highlight line cs = pre ++ ⟨run, numeralStyle⟩ :: post ∧
      (plainText pre).length = n := by
  constructor
  · rintro ⟨before, after, rfl, rfl, hne, hrun, hbefore, hafter⟩
    refine ⟨highlight line before, highlight line after, ?_, by rw [plainText_highlight]⟩
    rw [highlight_append (parted_of_getLast? hbefore _), highlight_run hne hrun hafter]
  · rintro ⟨pre, post, hspans, rfl⟩
    induction cs using run_induction generalizing pre with
    | nil => cases pre <;> cases hspans
    | char c cs hc ih =>
      rw [highlight_char hc] at hspans
      cases pre with
      | nil =>
        have hstyle := congrArg Span.style (List.cons.inj hspans).1
        exact absurd hstyle (charStyle_ne_numeralStyle hline c)
      | cons s pre =>
        obtain ⟨rfl, hrest⟩ := List.cons.inj hspans
        have hparted : Parted [c] cs := parted_of_getLast? (by rintro _ ⟨⟩; exact hc) cs
        have h := (ih pre hrest).append_left hparted
        rwa [← List.length_append] at h
    | run run' cs hne hrun hnext ih =>
      rw [highlight_run hne hrun hnext] at hspans
      cases pre with
      | nil =>
        obtain ⟨hspan, -⟩ := List.cons.inj hspans
        obtain rfl : run' = run := congrArg Span.text hspan
        exact ⟨[], cs, rfl, rfl, hne, hrun, fun _ hnone => (by cases hnone), hnext⟩
      | cons s pre =>
        obtain ⟨rfl, hrest⟩ := List.cons.inj hspans
        have h := (ih pre hrest).append_left (parted_of_head? run' hnext)
        rwa [← List.length_append] at h

/-! ### Numerals and tokens -/

/-- The texts of the spans with the style of numerals. -/
def numerals (spans : List Span) : List (List Char) :=
  (spans.filter fun s => s.style = numeralStyle).map Span.text

/-- The run of digits and points that a token is, if it is one. -/
def Lexeme.run? : Lexeme → Option (List Char)
  | numerals c cs => some (c :: cs)
  | _ => none

theorem numerals_chars (hline : line ≠ numeralStyle) (ds : List Char) (spans : List Span) :
    numerals ((ds.map fun c => ⟨[c], charStyle line c⟩) ++ spans) = numerals spans := by
  have hnone : (ds.map fun c => (⟨[c], charStyle line c⟩ : Span)).filter
      (fun s => s.style = numeralStyle) = [] := by
    refine List.filter_eq_nil_iff.2 fun s hs => ?_
    obtain ⟨c, -, rfl⟩ := List.mem_map.1 hs
    simpa using charStyle_ne_numeralStyle hline c
  rw [numerals, List.filter_append, hnone, List.nil_append, numerals]

/-- A token is a numeral exactly if it is a run. -/
theorem numerals_token {l : Lexeme} (hline : line ≠ numeralStyle) (hl : l.WellFormed)
    (hends : l.EndsBefore cs.head?) : numerals (highlight line (l.chars ++ cs)) =
      l.run?.toList ++ numerals (highlight line cs) := by
  cases hrun : l.run? with
  | none =>
    have hchars : ∀ c ∈ l.chars, isNumeral c = false := by
      intro c hc
      by_contra hn
      obtain ⟨d, ds, rfl⟩ := hl.numerals_of_mem hc (Bool.not_eq_false _ ▸ hn)
      cases hrun
    rw [highlight_chars hchars, numerals_chars hline]
    rfl
  | some run =>
    cases l with
    | numerals d ds =>
      have hnext : ∀ c, cs.head? = some c → isNumeral c = false := by
        intro c hc
        rw [hc] at hends
        exact hends
      obtain rfl : d :: ds = run := Option.some.inj hrun
      rw [Lexeme.chars, highlight_run (List.cons_ne_nil d ds) (List.forall_mem_cons.2 hl) hnext,
        numerals, List.filter_cons_of_pos (by simp)]
      rfl
    | _ => cases hrun

/-- The spans with the style of numerals are the tokens that are runs. -/
theorem numerals_highlight (hline : line ≠ numeralStyle) (cs : List Char) :
    numerals (highlight line cs) = (lexemes cs).filterMap Lexeme.run? := by
  have key : ∀ {n ts cs}, Cut n ts cs →
      numerals (highlight line cs) = (ts.map Token.lexeme).filterMap Lexeme.run? := by
    intro n ts cs h
    induction h with
    | done => rfl
    | @blank _ _ c cs hc _ ih =>
      rw [highlight_char (isNumeral_of_isBlank hc), ← ih]
      exact numerals_chars hline [c] _
    | @token n l ts cs hl hends _ ih =>
      rw [numerals_token hline hl hends, ih, List.map_cons, List.filterMap_cons]
      cases l.run? <;> rfl
  exact key (Cut.cut_tokens cs)

/-! ### The literals of an expression -/

/-- Operands that remember the literals in them, from left to right. -/
def gathered : Interpretation (List Literal) where
  literal l := [l]
  group := id
  sign _ ls := ls
  apply _ ls ms := ls ++ ms

/-- The runs among the tokens of an expression are its literals. -/
theorem Derives.map_chars_gathered {k : Category} {d : Derivation} {ls : List Lexeme}
    (h : Derives k d ls) :
    (d.fold gathered).map Literal.chars = ls.filterMap Lexeme.run? := by
  have hoperator : ∀ {op : Operator} {l : Lexeme}, l ∈ op.lexemes → l.run? = none := by
    intro op l hop
    cases op <;> cases l <;> simp [Operator.lexemes, Lexeme.run?] at hop ⊢
  have hbinary : ∀ {op : Operator} {l : Lexeme} {d e : Derivation} {ls ms : List Lexeme},
      l ∈ op.lexemes → (d.fold gathered).map Literal.chars = ls.filterMap Lexeme.run? →
      (e.fold gathered).map Literal.chars = ms.filterMap Lexeme.run? →
      ((Derivation.binary d op e).fold gathered).map Literal.chars =
        (ls ++ l :: ms).filterMap Lexeme.run? := by
    intro op l d e ls ms hop hd he
    rw [List.filterMap_append, List.filterMap_cons_none (hoperator hop), ← hd, ← he]
    exact List.map_append
  induction h with
  | literal h => exact congrArg (fun cs => [cs]) h
  | group _ ih =>
    rw [List.cons_append, List.filterMap_cons_none rfl, List.filterMap_append, ← ih]
    exact (List.append_nil _).symm
  | @sign s _ _ _ ih =>
    rw [List.filterMap_cons_none (by cases s <;> rfl), ← ih]
    rfl
  | atom _ ih | signed _ ih | factor _ ih | term _ ih => exact ih
  | power _ hop _ ih ih' | product _ _ hop _ ih ih' | sum _ _ hop _ ih ih' =>
    exact hbinary hop ih ih'

/-- The literals that are read are the runs among the tokens. -/
theorem read_gathered {s : String} (p : Parse s.toList) :
    ∃ ls, read gathered s.toList = .ok ls ∧
      ls.map Literal.chars = (lexemes s.toList).filterMap Lexeme.run? := by
  refine ⟨p.tree.fold gathered, ?_, p.derives_lexemes.map_chars_gathered⟩
  rw [(Derivation.hom_fold gathered).read_map, p.read_eq]
  rfl

/-- The spaced form of a text has no blanks but spaces. -/
theorem eq_space_of_mem_spaced (hc : c ∈ spaced cs) (hblank : isBlank c = true) : c = ' ' := by
  have hne : words (spread false (unblanked cs)) ≠ [] := by
    intro hnil
    rw [spaced, ← unblanked, hnil] at hc
    cases hc
  exact (tidy_unwords hne fun _ => isWord_of_mem_words).eq_space c hc hblank

theorem charStyle_ne_invalidStyle (hline : line ≠ invalidStyle)
    (hc : c = ' ' ∨ c ∈ "+-*/%^()".toList) : charStyle line c ≠ invalidStyle := by
  have hoperator : operatorStyle ≠ invalidStyle := by decide
  have hplain : Style.plain ≠ invalidStyle := by decide
  obtain rfl | hc := hc
  · exact hplain
  · simp only [String.reduceToList, List.mem_cons, List.not_mem_nil, or_false] at hc
    obtain rfl | rfl | rfl | rfl | rfl | rfl | rfl | rfl := hc
    all_goals first | exact hoperator | exact hline

/-- Nothing in the spaced form of an expression is marked as invalid. -/
theorem style_ne_invalidStyle {s : Span} (hline : line ≠ invalidStyle) (h : Accepted (spaced cs))
    (hs : s ∈ highlight line (spaced cs)) : s.style ≠ invalidStyle := by
  obtain hstyle | ⟨c, hc, hn, rfl⟩ := mem_highlight hs
  · rw [hstyle]
    decide
  · refine charStyle_ne_invalidStyle hline ?_
    obtain hblank | hnumeral | hmem := h.mem_cases hc
    · exact .inl (eq_space_of_mem_spaced hc hblank)
    · cases hn.symm.trans hnumeral
    · exact .inr hmem

/-- **Colours and the evaluator.** Colouring a text changes nothing but its look, and the spans with
the style of numerals are its maximal runs of digits and points. If the text is an expression, then
nothing in its spaced form is marked as invalid, and the numerals in it are, one by one, the
literals that are read. The line may have any style but those of numerals and of marks. -/
theorem highlight_agrees (hnumeral : line ≠ numeralStyle) (hinvalid : line ≠ invalidStyle) :
    (∀ cs, plainText (highlight line cs) = cs ∧
      ∀ n run, RunsAt cs n run ↔ ∃ pre post,
        highlight line cs = pre ++ ⟨run, numeralStyle⟩ :: post ∧ (plainText pre).length = n) ∧
    ∀ s v, evaluate s = .ok v → ∃ ls, read gathered s.toList = .ok ls ∧
      (∀ span ∈ highlight line (spacedText s).toList, span.style ≠ invalidStyle) ∧
      numerals (highlight line (spacedText s).toList) = ls.map Literal.chars := by
  refine ⟨fun cs => ⟨plainText_highlight line cs, fun n run => runsAt_iff hnumeral⟩, ?_⟩
  intro s v hv
  obtain ⟨p, -⟩ := exists_parse hv
  obtain ⟨ls, hread, hliterals⟩ := read_gathered p
  have htext : (spacedText s).toList = spaced s.toList := String.toList_ofList
  have htokens : lexemes (spaced s.toList) = lexemes s.toList := htext ▸ lexemes_spacedText p
  have haccepted : Accepted (spaced s.toList) := by
    refine (alike_of_lexemes htokens).accepted_iff.2 ⟨v, ?_⟩
    rw [String.ofList_toList]
    exact hv
  rw [htext]
  refine ⟨ls, hread, fun span hspan => style_ne_invalidStyle hinvalid haccepted hspan, ?_⟩
  rw [numerals_highlight hnumeral, htokens, hliterals]

/-- Every literal keeps its text, also one that begins with a point or ends with a nought. -/
theorem highlight_agrees_points :
    let spans := highlight Colour.cyan.style "3.50 * (2 - -.5)".toList
    ∃ ls, read gathered "3.50*(2- -.5)".toList = .ok ls ∧
      (∀ span ∈ spans, span.style ≠ invalidStyle) ∧
      numerals spans = ls.map Literal.chars ∧
      ls.map Literal.chars = ["3.50".toList, "2".toList, ".5".toList] := by
  have hspaced : spacedText "3.50*(2- -.5)" = "3.50 * (2 - -.5)" := by decide +kernel
  have hv : evaluate "3.50*(2- -.5)" = .ok (.ofBits 0x4021800000000000) := by decide +kernel
  have hnumeral : Colour.cyan.style ≠ numeralStyle := by decide
  have hinvalid : Colour.cyan.style ≠ invalidStyle := by decide
  obtain ⟨-, h⟩ := highlight_agrees hnumeral hinvalid
  obtain ⟨ls, hread, hvalid, hliterals⟩ := h _ _ hv
  rw [hspaced] at hvalid hliterals
  exact ⟨ls, hread, hvalid, hliterals, hliterals.symm.trans (by decide +kernel)⟩

end Reckoner.Expression
