import Mathlib.Data.List.TakeWhile
import Reckoner.Expression.Token

/-!
# Cutting a text into tokens

`Cut n ts cs` says that the text `cs`, whose first character has position `n`, consists of the
tokens `ts` and of blanks between them. A token is never followed by a character that it could
take in: a run of digits and points is maximal, and a single star is followed by no other star.

The scanner finds the one way in which a text can be cut (`cut_iff`). Since the relation looks at
one token and the character behind it, a cut can be taken apart before any token and continued with
a different text (`Cut.exists_split`); this is how statements about the beginning of a text are
carried over to all texts that begin in the same way.
-/

namespace Reckoner.Expression

/-! ### Characters of tokens -/

/-- A digit or a point is not blank. -/
theorem isBlank_of_isNumeral {c : Char} (h : isNumeral c = true) : Text.isBlank c = false := by
  have hn : c.toNat = 46 ∨ (48 ≤ c.toNat ∧ c.toNat ≤ 57) := by
    simp only [isNumeral, Bool.or_eq_true, beq_iff_eq] at h
    rcases h with h | rfl
    · exact Or.inr (by simpa [Char.isDigit, UInt32.le_iff_toNat_le] using h)
    · exact Or.inl rfl
  simp only [Text.isBlank, Bool.or_eq_false_iff, Bool.and_eq_false_iff, decide_eq_false_iff_not,
    beq_eq_false_iff_ne]
  omega

theorem isNumeral_of_isBlank {c : Char} (h : Text.isBlank c = true) : isNumeral c = false := by
  by_contra hc
  rw [isBlank_of_isNumeral (Bool.not_eq_false _ ▸ hc)] at h
  cases h

/-- Whether the token is as the scanner makes it: a run holds digits and points, and no token
that has a name of its own is listed under its character. -/
def Lexeme.WellFormed : Lexeme → Prop
  | numerals c cs => isNumeral c = true ∧ ∀ d ∈ cs, isNumeral d = true
  | other c =>
    isNumeral c = false ∧ c ≠ '*' ∧ Text.isBlank c = false ∧ Lexeme.ofChar c = other c
  | _ => True

/-- Whether the token ends before the given next character, or before the end of the text. -/
def Lexeme.EndsBefore : Lexeme → Option Char → Prop
  | numerals _ _, some c => isNumeral c = false
  | star, some c => c ≠ '*'
  | _, _ => True

namespace Lexeme

theorem endsBefore_none (l : Lexeme) : l.EndsBefore none := by
  cases l <;> trivial

/-- A blank ends every token. -/
theorem endsBefore_of_isBlank (l : Lexeme) {c : Char} (h : Text.isBlank c = true) :
    l.EndsBefore (some c) := by
  cases l with
  | numerals => exact isNumeral_of_isBlank h
  | star => rintro rfl; exact absurd h (by decide)
  | _ => trivial

theorem head?_chars_append (l : Lexeme) (cs : List Char) :
    (l.chars ++ cs).head? = some l.head := by
  rw [List.head?_append, l.head?_chars, Option.some_or]

theorem exists_chars_eq (l : Lexeme) : ∃ cs, l.chars = l.head :: cs := by
  cases l <;> exact ⟨_, rfl⟩

theorem chars_ne_nil (l : Lexeme) : l.chars ≠ [] := by
  obtain ⟨cs, h⟩ := l.exists_chars_eq
  exact h ▸ List.cons_ne_nil _ _

/-- No token begins with a blank. -/
theorem WellFormed.isBlank_head {l : Lexeme} (h : l.WellFormed) : Text.isBlank l.head = false := by
  cases l with
  | numerals => exact isBlank_of_isNumeral h.1
  | other => exact h.2.2.1
  | _ => decide

/-- Only a run of digits and points contains one. -/
theorem WellFormed.numerals_of_mem {l : Lexeme} (h : l.WellFormed) {c : Char} (hc : c ∈ l.chars)
    (hn : isNumeral c = true) : ∃ d ds, l = numerals d ds := by
  cases l with
  | numerals d ds => exact ⟨d, ds, rfl⟩
  | other d =>
    obtain rfl : c = d := List.mem_singleton.mp hc
    rw [h.1] at hn
    cases hn
  | _ => simp only [chars, List.mem_cons, List.not_mem_nil, or_false, or_self] at hc
         subst hc
         exact absurd hn (by decide)

/-- A token that begins with a star is one of the two made of stars. -/
theorem WellFormed.mem_stars {l : Lexeme} (h : l.WellFormed) (hs : l.head = '*') :
    l ∈ [star, doubleStar] := by
  cases l with
  | numerals =>
    obtain rfl : _ = '*' := hs
    exact absurd h.1 (by decide)
  | other => exact absurd hs h.2.1
  | star | doubleStar => simp
  | _ => exact absurd hs (by decide)

/-- Any other token is the one that its first character makes. -/
theorem WellFormed.eq_ofChar {l : Lexeme} (h : l.WellFormed) (hn : isNumeral l.head = false)
    (hs : l.head ≠ '*') : l = ofChar l.head := by
  cases l with
  | numerals =>
    exact absurd (h.1.symm.trans hn) (by decide)
  | other => exact h.2.2.2.symm
  | star | doubleStar => exact absurd rfl hs
  | _ => rfl

/-- The first character of a token tells which token it is, up to the length of a run and the
number of stars. -/
theorem WellFormed.eq_or_alike {l m : Lexeme} (hl : l.WellFormed) (hm : m.WellFormed)
    (h : l.head = m.head) :
    l = m ∨ (∃ c cs ds, l = numerals c cs ∧ m = numerals c ds) ∨
      (l ∈ [star, doubleStar] ∧ m ∈ [star, doubleStar]) := by
  by_cases hn : isNumeral l.head = true
  · obtain ⟨c, cs, rfl⟩ := hl.numerals_of_mem (List.mem_of_head? l.head?_chars) hn
    obtain ⟨d, ds, rfl⟩ := hm.numerals_of_mem (List.mem_of_head? m.head?_chars) (h ▸ hn)
    obtain rfl : c = d := h
    exact Or.inr (Or.inl ⟨c, cs, ds, rfl, rfl⟩)
  · rw [Bool.not_eq_true] at hn
    by_cases hs : l.head = '*'
    · exact Or.inr (Or.inr ⟨hl.mem_stars hs, hm.mem_stars (h ▸ hs)⟩)
    · refine Or.inl ?_
      rw [hl.eq_ofChar hn hs, hm.eq_ofChar (h ▸ hn) (h ▸ hs), h]

/-- The token made by a character that is no numeral, no star and no blank is as it should be, and
ends before whatever follows. -/
theorem ofChar_spec {c : Char} (hn : isNumeral c = false) (hs : c ≠ '*')
    (hb : Text.isBlank c = false) :
    (ofChar c).WellFormed ∧ (ofChar c).chars = [c] ∧ ∀ next, (ofChar c).EndsBefore next := by
  have hself : ∀ d, ofChar c = other d → ofChar c = other c := by
    intro d h
    unfold ofChar at h ⊢
    split at h <;> first | rfl | cases h
  unfold ofChar at hself ⊢
  split <;> simp_all [WellFormed, chars, EndsBefore, ofChar]

end Lexeme

/-! ### Cuts -/

/-- The text `cs` from position `n` on consists of the tokens `ts` and of blanks. -/
inductive Cut : Nat → List Token → List Char → Prop
  | done {n : Nat} : Cut n [] []
  | blank {n : Nat} {ts : List Token} {c : Char} {cs : List Char} (hc : Text.isBlank c = true)
      (h : Cut (n + 1) ts cs) : Cut n ts (c :: cs)
  | token {n : Nat} {l : Lexeme} {ts : List Token} {cs : List Char} (hl : l.WellFormed)
      (hends : l.EndsBefore cs.head?) (h : Cut (n + l.chars.length) ts cs) :
      Cut n (⟨l, n⟩ :: ts) (l.chars ++ cs)

namespace Cut

variable {n : Nat} {ts : List Token} {cs : List Char}

/-! ### The scanner finds the cut -/

/-- What the scanner has begun is released in front of a text that it takes nothing from. -/
theorem scanFrom_release {p : Pending}
    (hends : ∀ t ∈ p.release, t.lexeme.EndsBefore cs.head?) :
    scanFrom p n cs = p.release ++ scanFrom .nothing n cs := by
  cases cs with
  | nil => simp [scanFrom, Pending.release]
  | cons c cs =>
    cases p with
    | nothing => rfl
    | numerals start first reversed =>
      have hc : isNumeral c = false := hends _ (List.mem_singleton_self _)
      simp only [scanFrom, Pending.step, hc, Bool.false_eq_true, if_false]
      split_ifs <;> simp [Pending.release]
    | star start =>
      have hc : c ≠ '*' := hends _ (List.mem_singleton_self _)
      simp only [scanFrom, Pending.step, hc, if_false]
      split_ifs <;> simp [Pending.release]

/-- A run that has been begun goes on as long as there are digits and points. -/
theorem scanFrom_numerals {start : Nat} {c : Char} {reversed ds : List Char}
    (hds : ∀ d ∈ ds, isNumeral d = true)
    (hends : (Lexeme.numerals c ds).EndsBefore cs.head?) :
    scanFrom (.numerals start c reversed) n (ds ++ cs) =
      ⟨.numerals c (reversed.reverse ++ ds), start⟩ :: scanFrom .nothing (n + ds.length) cs := by
  induction ds generalizing reversed n with
  | nil =>
    rw [List.nil_append, scanFrom_release]
    · simp [Pending.release]
    · intro t ht
      obtain rfl := List.mem_singleton.mp ht
      cases hcs : cs.head? with
      | none => trivial
      | some d => rw [hcs] at hends; exact hends
  | cons d ds ih =>
    have hd : isNumeral d = true := hds d List.mem_cons_self
    have hrest : ∀ e ∈ ds, isNumeral e = true := fun e he => hds e (List.mem_cons_of_mem d he)
    have hends' : (Lexeme.numerals c ds).EndsBefore cs.head? := by
      cases hcs : cs.head? with
      | none => trivial
      | some e => rw [hcs] at hends; exact hends
    have hlen : n + 1 + ds.length = n + (d :: ds).length := by rw [List.length_cons]; omega
    -- the digit joins the run that has been begun, and the induction goes on behind it
    rw [List.cons_append, scanFrom, Pending.step, if_pos hd, List.nil_append, ih hrest hends',
      hlen, List.reverse_cons, List.append_assoc, List.singleton_append]

/-- A token in front is the first that the scanner finds. -/
theorem scanFrom_token {l : Lexeme} (hl : l.WellFormed) (hends : l.EndsBefore cs.head?) :
    scanFrom .nothing n (l.chars ++ cs) =
      ⟨l, n⟩ :: scanFrom .nothing (n + l.chars.length) cs := by
  cases l with
  | numerals c ds =>
    have hlen : n + 1 + ds.length = n + (c :: ds).length := by rw [List.length_cons]; omega
    have hstep : scanFrom .nothing n (c :: (ds ++ cs)) =
        scanFrom (.numerals n c []) (n + 1) (ds ++ cs) := by
      simp [scanFrom, Pending.step, Pending.release, hl.1]
    rw [Lexeme.chars, List.cons_append, hstep, scanFrom_numerals hl.2 hends, hlen,
      List.reverse_nil, List.nil_append]
  | star =>
    have hstep : scanFrom .nothing n ('*' :: cs) = scanFrom (.star n) (n + 1) cs := by
      simp [scanFrom, Pending.step, Pending.release, isNumeral]
    -- a lone star is not followed by another, so the scanner lets it go
    refine hstep.trans (scanFrom_release fun t ht => ?_)
    obtain rfl := List.mem_singleton.mp ht
    exact hends
  | other c =>
    obtain ⟨hn, hs, hb, hc⟩ := hl
    simp [Lexeme.chars, scanFrom, Pending.step, Pending.release, hn, hs, hb, hc]
  | _ =>
    simp [Lexeme.chars, scanFrom, Pending.step, Pending.release, isNumeral, Text.isBlank,
      Lexeme.ofChar]

theorem scanFrom_eq (h : Cut n ts cs) : scanFrom .nothing n cs = ts := by
  induction h with
  | done => rfl
  | @blank n ts c cs hc _ ih =>
    have hs : c ≠ '*' := by rintro rfl; exact absurd hc (by decide)
    have hstep : scanFrom .nothing n (c :: cs) = scanFrom .nothing (n + 1) cs := by
      simp [scanFrom, Pending.step, Pending.release, isNumeral_of_isBlank hc, hs, hc]
    rw [hstep, ih]
  | token hl hends _ ih => rw [scanFrom_token hl hends, ih]

/-- A text that does not begin with a blank begins with a token. -/
theorem exists_token (c : Char) (cs : List Char) (hb : Text.isBlank c = false) :
    ∃ (l : Lexeme) (rest : List Char),
      l.WellFormed ∧ l.EndsBefore rest.head? ∧ c :: cs = l.chars ++ rest := by
  by_cases hn : isNumeral c = true
  · refine ⟨.numerals c (cs.takeWhile isNumeral), cs.dropWhile isNumeral, ⟨hn, fun d hd => ?_⟩,
      ?_, ?_⟩
    · exact List.mem_takeWhile_imp hd
    · have := List.head?_dropWhile_not isNumeral cs
      cases hcs : (cs.dropWhile isNumeral).head? with
      | none => trivial
      | some d => rw [hcs] at this; exact this
    · rw [Lexeme.chars, List.cons_append, List.takeWhile_append_dropWhile]
  · rw [Bool.not_eq_true] at hn
    by_cases hs : c = '*'
    · subst hs
      cases cs with
      | nil => exact ⟨.star, [], trivial, trivial, rfl⟩
      | cons d ds =>
        by_cases hd : d = '*'
        · subst hd
          exact ⟨.doubleStar, ds, trivial, trivial, rfl⟩
        · exact ⟨.star, d :: ds, trivial, hd, rfl⟩
    · obtain ⟨hwf, hchars, hends⟩ := Lexeme.ofChar_spec hn hs hb
      exact ⟨.ofChar c, cs, hwf, hends _, by rw [hchars]; rfl⟩

/-- Every text can be cut. -/
theorem exists_cut (n : Nat) (cs : List Char) : ∃ ts, Cut n ts cs := by
  match cs with
  | [] => exact ⟨[], done⟩
  | c :: cs =>
    by_cases hb : Text.isBlank c = true
    · obtain ⟨ts, h⟩ := exists_cut (n + 1) cs
      exact ⟨ts, blank hb h⟩
    · obtain ⟨l, rest, hl, hends, heq⟩ := exists_token c cs (Bool.not_eq_true _ ▸ hb)
      have hlen : rest.length < (c :: cs).length := by
        have := List.length_pos_iff.mpr l.chars_ne_nil
        rw [heq, List.length_append]
        omega
      obtain ⟨ts, h⟩ := exists_cut (n + l.chars.length) rest
      exact ⟨⟨l, n⟩ :: ts, heq ▸ token hl hends h⟩
termination_by cs.length
decreasing_by
  · exact Nat.lt_succ_self _
  · exact hlen

/-- **A text is cut in one way, and the scanner finds it.** -/
theorem cut_iff : Cut n ts cs ↔ scanFrom .nothing n cs = ts := by
  refine ⟨scanFrom_eq, ?_⟩
  rintro rfl
  obtain ⟨ts, h⟩ := exists_cut n cs
  rw [scanFrom_eq h]
  exact h

theorem cut_tokens (cs : List Char) : Cut 0 (tokens cs) cs := cut_iff.mpr rfl

theorem tokens_eq (h : Cut 0 ts cs) : tokens cs = ts := h.scanFrom_eq

/-- A text that does not begin with a blank is cut behind a token with its first character. -/
theorem exists_head {c : Char} (h : Cut n ts (c :: cs)) (hb : Text.isBlank c = false) :
    ∃ l us, ts = ⟨l, n⟩ :: us ∧ l.WellFormed ∧ l.head = c := by
  generalize hcs : c :: cs = ds at h
  cases h with
  | done => cases hcs
  | blank hc =>
    obtain ⟨rfl, -⟩ := List.cons.inj hcs
    rw [hc] at hb
    cases hb
  | @token _ l us rest hl =>
    have hhead := l.head?_chars_append rest
    rw [← hcs, List.head?_cons] at hhead
    exact ⟨l, us, rfl, hl, (Option.some.inj hhead).symm⟩

/-! ### Taking a cut apart -/

/-- How a text that is cut into `pre`, the token `t` and `post` falls into the text `before` the
token, the token and the text `after` it. -/
structure SplitAt (n : Nat) (pre : List Token) (t : Token) (post : List Token) (cs : List Char)
    (before after : List Char) : Prop where
  text : cs = before ++ (t.lexeme.chars ++ after)
  start : t.start = n + before.length
  wellFormed : t.lexeme.WellFormed
  endsBefore : t.lexeme.EndsBefore after.head?
  cutBefore : Cut n pre before
  cutAfter : Cut t.stop post after
  /-- Any text with the same first character can stand in the place of the token. -/
  resume : ∀ ts ds, ds.head? = some t.lexeme.head → Cut t.start ts ds →
    Cut n (pre ++ ts) (before ++ ds)
  /-- A run of digits and points is not preceded by another. -/
  maximal : ∀ c, before.getLast? = some c → isNumeral c = true → isNumeral t.lexeme.head = false

/-- A cut falls apart before each of its tokens. -/
theorem exists_split {pre post : List Token} {t : Token} (h : Cut n (pre ++ t :: post) cs) :
    ∃ before after, SplitAt n pre t post cs before after := by
  generalize hts : pre ++ t :: post = ts at h
  induction h generalizing pre with
  | done => exact absurd hts (by simp)
  | @blank n ts c cs hc h ih =>
    obtain ⟨before, after, sp⟩ := ih hts
    refine ⟨c :: before, after, ?_, ?_, sp.wellFormed, sp.endsBefore, blank hc sp.cutBefore,
      sp.cutAfter, fun ts ds hd hcut => blank hc (sp.resume ts ds hd hcut), ?_⟩
    · rw [sp.text, List.cons_append]
    · rw [sp.start, List.length_cons]; omega
    · intro d hd hn
      cases before with
      | nil =>
        obtain rfl : c = d := by simpa using hd
        rw [isNumeral_of_isBlank hc] at hn
        cases hn
      | cons e es => exact sp.maximal d (by simpa [List.getLast?_cons_cons] using hd) hn
  | @token n l ts cs hl hends h ih =>
    cases pre with
    | nil =>
      obtain ⟨rfl, rfl⟩ := List.cons.inj hts
      exact ⟨[], cs, rfl, rfl, hl, hends, done, h, fun ts ds _ hcut => hcut, by simp⟩
    | cons u pre =>
      obtain ⟨rfl, hrest⟩ := List.cons.inj hts
      obtain ⟨before, after, sp⟩ := ih hrest
      -- the first token sees the same character in every text that may follow
      have hnext : ∀ ds : List Char, ds.head? = some t.lexeme.head →
          (before ++ ds).head? = cs.head? := by
        intro ds hd
        rw [sp.text, List.head?_append, List.head?_append, hd, t.lexeme.head?_chars_append]
      refine ⟨l.chars ++ before, after, ?_, ?_, sp.wellFormed, sp.endsBefore,
        token hl ?_ sp.cutBefore, sp.cutAfter, ?_, ?_⟩
      · rw [sp.text, List.append_assoc]
      · rw [sp.start, List.length_append]; omega
      · cases hb : before.head? with
        | none => exact l.endsBefore_none
        | some c => rwa [sp.text, List.head?_append, hb, Option.some_or] at hends
      · intro ts ds hd hcut
        rw [List.append_assoc]
        exact token hl (hnext ds hd ▸ hends) (sp.resume ts ds hd hcut)
      · intro d hd hn
        cases before with
        | nil =>
          rw [List.append_nil] at hd
          obtain ⟨e, es, rfl⟩ := hl.numerals_of_mem (List.mem_of_getLast? hd) hn
          rw [sp.text, List.nil_append, t.lexeme.head?_chars_append] at hends
          exact hends
        | cons e es =>
          refine sp.maximal d ?_ hn
          rwa [List.getLast?_append, List.getLast?_cons, Option.some_or, ← List.getLast?_cons]
            at hd

/-- Behind a blank any text can follow. -/
theorem append_blank {us : List Token} {ds : List Char} {b : Char} (hb : Text.isBlank b = true)
    (h : Cut n ts cs) (hd : Cut (n + cs.length + 1) us ds) :
    Cut n (ts ++ us) (cs ++ b :: ds) := by
  induction h with
  | done => exact blank hb hd
  | @blank n ts c cs hc _ ih =>
    have hn : n + 1 + cs.length = n + (c :: cs).length := by rw [List.length_cons]; omega
    exact blank hc (ih (hn ▸ hd))
  | @token n l ts cs hl hends _ ih =>
    rw [List.append_assoc]
    refine token hl ?_ (ih ?_)
    · rw [List.head?_append]
      cases hcs : cs.head? with
      | none => exact l.endsBefore_of_isBlank hb
      | some c => rw [hcs] at hends; exact hends
    · rwa [List.length_append, ← Nat.add_assoc] at hd

end Cut

end Reckoner.Expression
