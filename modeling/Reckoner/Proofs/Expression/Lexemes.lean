import Mathlib.Data.List.Chain
import Reckoner.Proofs.Expression.Calculations
import Reckoner.Proofs.Text.Unblanked

/-!
# What the tokens of a text say

Where a text stands makes no difference to the tokens that it is cut into, apart from their
positions (`Cut.lexemes_eq`), and neither do blanks between the tokens. Whether a text is an
expression, with which value and which calculations, depends on these tokens alone
(`evaluate_eq_ok_iff_derives`, `steps_work_of_derives`); only the place of a fault depends on more.
So two texts with the same tokens evaluate alike.

Tokens can stand side by side without blanks if no two neighbours run together
(`lexemes_flatMap_chars`), and this is so for the tokens of every expression
(`Derives.isChain_apart`).
-/

namespace Reckoner.Expression

open Text

/-- The tokens of a text without their positions. -/
def lexemes (cs : List Char) : List Lexeme := (tokens cs).map Token.lexeme

/-! ### Cutting at another position -/

/-- The token at a place `k` characters further on. -/
def Token.shift (k : Nat) (t : Token) : Token := ⟨t.lexeme, t.start + k⟩

namespace Cut

variable {n : Nat} {ts : List Token} {cs : List Char}

/-- A text that begins further on is cut into the same tokens, each of them as much further on. -/
theorem shift (h : Cut n ts cs) (k : Nat) : Cut (n + k) (ts.map (Token.shift k)) cs := by
  induction h with
  | done => exact done
  | blank hc _ ih =>
    rw [Nat.add_right_comm] at ih
    exact blank hc ih
  | token hl hends _ ih =>
    rw [Nat.add_right_comm] at ih
    exact token hl hends ih

theorem lexemes_eq (h : Cut n ts cs) : lexemes cs = ts.map Token.lexeme := by
  have hshift := (cut_tokens cs).shift n
  rw [Nat.zero_add] at hshift
  have hts : (tokens cs).map (Token.shift n) = ts := hshift.scanFrom_eq.symm.trans h.scanFrom_eq
  rw [← hts, List.map_map]
  rfl

end Cut

@[simp]
theorem lexemes_nil : lexemes [] = [] := rfl

@[simp]
theorem lexemes_blank {c : Char} (hc : isBlank c = true) (cs : List Char) :
    lexemes (c :: cs) = lexemes cs := by
  obtain ⟨ts, h⟩ := Cut.exists_cut 1 cs
  have hcut : Cut 0 ts (c :: cs) := .blank hc h
  rw [hcut.lexemes_eq, h.lexemes_eq]

theorem lexemes_token {l : Lexeme} (hl : l.WellFormed) {cs : List Char}
    (hends : l.EndsBefore cs.head?) : lexemes (l.chars ++ cs) = l :: lexemes cs := by
  obtain ⟨ts, h⟩ := Cut.exists_cut (0 + l.chars.length) cs
  rw [(Cut.token hl hends h).lexemes_eq, h.lexemes_eq, List.map_cons]

/-- A blank keeps what follows it apart. -/
theorem lexemes_append_blank {b : Char} (hb : isBlank b = true) (cs ds : List Char) :
    lexemes (cs ++ b :: ds) = lexemes cs ++ lexemes ds := by
  obtain ⟨ts, hcs⟩ := Cut.exists_cut 0 cs
  obtain ⟨us, hds⟩ := Cut.exists_cut (0 + cs.length + 1) ds
  rw [(hcs.append_blank hb hds).lexemes_eq, hcs.lexemes_eq, hds.lexemes_eq, List.map_append]

/-- Blanks around a text do not count. -/
theorem lexemes_trim (cs : List Char) : lexemes (trim cs) = lexemes cs := by
  have hfront : ∀ {bs : List Char}, AllBlank bs → ∀ ds, lexemes (bs ++ ds) = lexemes ds := by
    intro bs hbs ds
    induction bs with
    | nil => rfl
    | cons b bs ih =>
      rw [List.cons_append, lexemes_blank (hbs b List.mem_cons_self),
        ih fun c hc => hbs c (List.mem_cons_of_mem b hc)]
  obtain ⟨as, bs, has, hbs, hcs⟩ := exists_eq_append_trim cs
  rw [hcs, hfront has, ← hcs]
  cases bs with
  | nil => rw [List.append_nil]
  | cons b bs =>
    have hrest : lexemes bs = [] := by
      have h := hfront (fun c hc => hbs c (List.mem_cons_of_mem b hc)) []
      rwa [List.append_nil] at h
    rw [lexemes_append_blank (hbs b List.mem_cons_self), hrest, List.append_nil]

/-! ### Tokens side by side -/

/-- Two tokens stay apart where nothing stands between them. -/
def Lexeme.Apart (l m : Lexeme) : Prop := l.EndsBefore (some m.head)

/-- Tokens of which no two neighbours run together are the tokens of their characters. -/
theorem lexemes_flatMap_chars {ls : List Lexeme} (hls : ∀ l ∈ ls, l.WellFormed)
    (h : ls.IsChain Lexeme.Apart) : lexemes (ls.flatMap Lexeme.chars) = ls := by
  induction ls with
  | nil => rfl
  | cons l ls ih =>
    have hends : l.EndsBefore (ls.flatMap Lexeme.chars).head? := by
      cases ls with
      | nil => exact l.endsBefore_none
      | cons m ls =>
        rw [List.flatMap_cons, m.head?_chars_append]
        exact (List.isChain_cons_cons.mp h).1
    rw [List.flatMap_cons, lexemes_token (hls l List.mem_cons_self) hends,
      ih (fun m hm => hls m (List.mem_cons_of_mem l hm)) h.tail]

/-- No token contains a blank. -/
theorem Lexeme.WellFormed.isBlank_of_mem {l : Lexeme} (h : l.WellFormed) {c : Char}
    (hc : c ∈ l.chars) : isBlank c = false := by
  cases l with
  | numerals d ds =>
    rcases List.mem_cons.mp hc with rfl | hc
    · exact isBlank_of_isNumeral h.1
    · exact isBlank_of_isNumeral (h.2 c hc)
  | other d =>
    obtain rfl := List.mem_singleton.mp hc
    exact h.2.2.1
  | doubleStar =>
    obtain rfl : c = '*' := by simpa [chars] using hc
    decide
  | _ =>
    obtain rfl := List.mem_singleton.mp hc
    decide

/-- The characters of the tokens are those of the text that are not blank. -/
theorem Cut.unblanked_eq {n : Nat} {ts : List Token} {cs : List Char} (h : Cut n ts cs) :
    unblanked cs = (ts.map Token.lexeme).flatMap Lexeme.chars := by
  induction h with
  | done => rfl
  | blank hc _ ih => rw [unblanked_blank hc, ih]
  | @token _ l _ _ hl _ _ ih =>
    rw [unblanked_append, unblanked_of_not_blank fun c hc => hl.isBlank_of_mem hc, ih,
      List.map_cons, List.flatMap_cons]

theorem unblanked_eq_flatMap_lexemes (cs : List Char) :
    unblanked cs = (lexemes cs).flatMap Lexeme.chars :=
  (Cut.cut_tokens cs).unblanked_eq

theorem wellFormed_of_mem_lexemes {cs : List Char} {l : Lexeme} (h : l ∈ lexemes cs) :
    l.WellFormed := by
  obtain ⟨t, ht, rfl⟩ := List.mem_map.mp h
  obtain ⟨pre, post, hts⟩ := List.append_of_mem ht
  obtain ⟨_, _, sp⟩ := Cut.exists_split (hts ▸ Cut.cut_tokens cs)
  exact sp.wellFormed

/-- Without its blanks a text has the same tokens if no two neighbours run together. -/
theorem lexemes_unblanked {cs : List Char} (h : (lexemes cs).IsChain Lexeme.Apart) :
    lexemes (unblanked cs) = lexemes cs := by
  rw [unblanked_eq_flatMap_lexemes, lexemes_flatMap_chars (fun _ => wellFormed_of_mem_lexemes) h]

/-! ### The tokens of an expression -/

theorem Literal.isNumeral_of_mem {l : Literal} {c : Char} (hc : c ∈ l.chars) :
    isNumeral c = true := by
  have hall := l.wellFormed
  rw [isLiteral, Bool.and_eq_true, Bool.and_eq_true] at hall
  exact List.all_eq_true.mp hall.1.1 c hc

/-- Whether the token stays apart from everything that can follow an operand. -/
def Lexeme.EndsOperand (l : Lexeme) : Prop := ∀ m : Lexeme, isNumeral m.head = false → l.Apart m

/-- Whether the token stays apart from everything that an operand can begin with. -/
def Lexeme.WantsOperand (l : Lexeme) : Prop := ∀ m : Lexeme, m.head ≠ '*' → l.Apart m

/-- Tokens that stay apart from each other, from what wants an operand in front of them, and from
what follows an operand behind them. -/
structure Solid (ls : List Lexeme) : Prop where
  chain : ls.IsChain Lexeme.Apart
  head : ∀ l ∈ ls.head?, l.head ≠ '*'
  last : ∀ l ∈ ls.getLast?, l.EndsOperand
  ne_nil : ls ≠ []

namespace Solid

variable {ls ms : List Lexeme} {l : Lexeme}

theorem literal {n : Literal} {c : Char} {cs : List Char} (h : n.chars = c :: cs) :
    Solid [.numerals c cs] := by
  have hc : isNumeral c = true := n.isNumeral_of_mem (h ▸ List.mem_cons_self)
  refine ⟨List.isChain_singleton _, ?_, ?_, List.cons_ne_nil _ _⟩
  · rintro _ ⟨⟩ rfl
    exact absurd hc (by decide)
  · rintro _ ⟨⟩ m hm
    exact hm

/-- Something in front that wants an operand. -/
theorem cons (h : Solid ls) (hl : l.WantsOperand) (hhead : l.head ≠ '*') : Solid (l :: ls) := by
  refine ⟨h.chain.cons fun m hm => hl m (h.head m hm), ?_, ?_, List.cons_ne_nil _ _⟩
  · rintro _ ⟨⟩
    exact hhead
  · rw [List.getLast?_cons_of_ne_nil h.ne_nil]
    exact h.last

/-- Something behind that follows an operand. -/
theorem append (h : Solid ls) (hms : ms.IsChain Lexeme.Apart)
    (hhead : ∀ m ∈ ms.head?, isNumeral m.head = false) (hlast : ∀ l ∈ ms.getLast?, l.EndsOperand)
    (hne : ms ≠ []) : Solid (ls ++ ms) := by
  refine ⟨List.isChain_append.mpr ⟨h.chain, hms, fun l hl m hm => h.last l hl m (hhead m hm)⟩,
    ?_, ?_, List.append_ne_nil_of_left_ne_nil h.ne_nil ms⟩
  · rw [List.head?_append_of_ne_nil _ h.ne_nil]
    exact h.head
  · rw [List.getLast?_append_of_ne_nil _ hne]
    exact hlast

theorem group (h : Solid ls) : Solid (.opening :: ls ++ [.closing]) := by
  refine (h.cons (l := .opening) (fun _ _ => trivial) (by decide)).append
    (List.isChain_singleton _) ?_ ?_ (List.cons_ne_nil _ _)
  · rintro _ ⟨⟩
    decide
  · rintro _ ⟨⟩ _ _
    trivial

theorem binary {op : Operator} (h : Solid ls) (hl : l ∈ op.lexemes) (h' : Solid ms) :
    Solid (ls ++ l :: ms) := by
  have hop : isNumeral l.head = false ∧ l.WantsOperand := by
    cases op <;> simp only [Operator.lexemes, List.mem_cons, List.not_mem_nil, or_false] at hl
    case power => rcases hl with rfl | rfl <;> exact ⟨by decide, fun _ _ => trivial⟩
    case times => exact hl ▸ ⟨by decide, fun _ hm => hm⟩
    all_goals exact hl ▸ ⟨by decide, fun _ _ => trivial⟩
  refine h.append (h'.chain.cons fun m hm => hop.2 m (h'.head m hm)) ?_ ?_ (List.cons_ne_nil _ _)
  · rintro _ ⟨⟩
    exact hop.1
  · rw [List.getLast?_cons_of_ne_nil h'.ne_nil]
    exact h'.last

end Solid

theorem Derives.solid {c : Category} {d : Derivation} {ls : List Lexeme} (h : Derives c d ls) :
    Solid ls := by
  induction h with
  | literal hl => exact .literal hl
  | group _ ih => exact ih.group
  | @sign s _ _ _ ih => cases s <;> exact ih.cons (fun _ _ => trivial) (by decide)
  | atom _ ih | signed _ ih | factor _ ih | term _ ih => exact ih
  | power _ hl _ ih ih' | product _ _ hl _ ih ih' | sum _ _ hl _ ih ih' => exact ih.binary hl ih'

/-- No two neighbouring tokens of an expression run together. -/
theorem Derives.isChain_apart {c : Category} {d : Derivation} {ls : List Lexeme}
    (h : Derives c d ls) : ls.IsChain Lexeme.Apart := h.solid.chain

/-- An expression begins with a literal, a sign or a parenthesis. -/
theorem Derives.exists_head {c : Category} {d : Derivation} {ls : List Lexeme}
    (h : Derives c d ls) :
    ∃ l ms, ls = l :: ms ∧ (isNumeral l.head = true ∨ l.head ∈ ['+', '-', '(']) := by
  induction h with
  | @literal l c cs hl => exact ⟨_, _, rfl, Or.inl (l.isNumeral_of_mem (hl ▸ List.mem_cons_self))⟩
  | group => exact ⟨_, _, rfl, Or.inr (by decide)⟩
  | @sign s => cases s <;> exact ⟨_, _, rfl, Or.inr (by decide)⟩
  | atom _ ih | signed _ ih | factor _ ih | term _ ih => exact ih
  | power _ _ _ ih | product _ _ _ _ ih | sum _ _ _ _ ih =>
    obtain ⟨l, ms, rfl, hl⟩ := ih
    exact ⟨l, _, rfl, hl⟩

/-! ### Reading depends on the tokens -/

variable {d : Derivation} {s : String}

/-- A derivation of the tokens of a text is a parse of the text. -/
def Parse.ofDerives {cs : List Char} (h : Derives .expression d (lexemes cs))
    (hd : d.nesting ≤ nestingLimit) : Parse cs :=
  ⟨Expression.tokens cs, d, Cut.cut_tokens cs, h, hd⟩

theorem Parse.derives_lexemes {cs : List Char} (p : Parse cs) :
    Derives .expression p.tree (lexemes cs) := by
  rw [p.cut.lexemes_eq]
  exact p.derives

/-- Whether a text is an expression, and its value, depends on its tokens. -/
theorem evaluate_eq_ok_iff_derives {v : Number} : evaluate s = .ok v ↔
    ∃ d, Derives .expression d (lexemes s.toList) ∧ d.nesting ≤ nestingLimit ∧ d.value = v := by
  constructor
  · intro h
    obtain ⟨p, hp⟩ := exists_parse h
    exact ⟨p.tree, p.derives_lexemes, p.nesting_le, hp⟩
  · rintro ⟨d, hd, hnest, rfl⟩
    rw [evaluate_eq, (Parse.ofDerives hd hnest).read_eq]
    rfl

/-- So do the calculations. -/
theorem steps_work_of_derives (h : Derives .expression d (lexemes s.toList))
    (hd : d.nesting ≤ nestingLimit) : (work true s).steps = d.calculations :=
  steps_work (.ofDerives h hd)

/-- Texts with the same tokens evaluate alike. -/
theorem evaluate_congr {s' : String} (h : lexemes s.toList = lexemes s'.toList) {v : Number} :
    evaluate s = .ok v ↔ evaluate s' = .ok v := by
  rw [evaluate_eq_ok_iff_derives, h, ← evaluate_eq_ok_iff_derives]

end Reckoner.Expression
