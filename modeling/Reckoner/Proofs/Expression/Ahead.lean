import Reckoner.Proofs.Expression.Descent

/-!
# What a descent has ahead

A descent sees characters; what it takes are tokens. From a position on, a text consists of tokens
(`Ahead`), and in front of them only the first one can be taken: a token that has a text of its own
is taken exactly if it is the first (`takes_eatFirst`), and otherwise the descent goes on to where
the first token begins, or to the end.
-/

namespace Reckoner.Expression

/-! ### Tokens ahead -/

section Tokens

variable {text cs : List Char} {n : Nat} {t : Token} {ts : List Token}

theorem Cut.isBlank_of_mem (h : Cut n [] cs) : ∀ c ∈ cs, Text.isBlank c = true := by
  generalize hts : ([] : List Token) = ts at h
  induction h with
  | done => simp
  | blank hc _ ih => exact List.forall_mem_cons.mpr ⟨hc, ih hts⟩
  | token => cases hts

/-- The tokens are what the text consists of from position `n` on. -/
structure Ahead (text : List Char) (n : Nat) (ts : List Token) : Prop where
  le : n ≤ text.length
  cut : Cut n ts (text.drop n)

/-- The text at a token: the token and the text behind it. -/
structure InFront (text : List Char) (t : Token) (ts : List Token) (rest : List Char) : Prop where
  drop_eq : text.drop t.start = t.lexeme.chars ++ rest
  wellFormed : t.lexeme.WellFormed
  endsBefore : t.lexeme.EndsBefore rest.head?
  ahead : Ahead text t.stop ts

/-- Where the first of the tokens begins, or the text ends. -/
def front (text : List Char) : List Token → Nat
  | [] => text.length
  | t :: _ => t.start

/-- Behind the blanks stands the first token, or the end. -/
theorem Ahead.add_blanks (h : Ahead text n ts) :
    n + ((text.drop n).takeWhile Text.isBlank).length = front text ts := by
  cases ts with
  | nil =>
    have hle := h.le
    rw [List.takeWhile_eq_self_iff.mpr h.cut.isBlank_of_mem, List.length_drop]
    show n + (text.length - n) = text.length
    omega
  | cons t ts =>
    obtain ⟨before, after, sp⟩ := Cut.exists_split (show Cut n ([] ++ t :: ts) _ from h.cut)
    obtain ⟨cs, hcs⟩ := t.lexeme.exists_chars_eq
    have hbefore : (text.drop n).takeWhile Text.isBlank = before := by
      rw [sp.text, List.takeWhile_append_of_pos sp.cutBefore.isBlank_of_mem, hcs, List.cons_append,
        List.takeWhile_cons, sp.wellFormed.isBlank_head, if_neg Bool.false_ne_true,
        List.append_nil]
    rw [hbefore]
    exact sp.start.symm

theorem Ahead.inFront (h : Ahead text n (t :: ts)) : ∃ rest, InFront text t ts rest := by
  obtain ⟨before, after, sp⟩ := Cut.exists_split (show Cut n ([] ++ t :: ts) _ from h.cut)
  have hstart : text.drop t.start = t.lexeme.chars ++ after := by
    rw [sp.start, ← List.drop_drop, sp.text, List.drop_left]
  have hstop : text.drop t.stop = after := by
    rw [Token.stop, ← List.drop_drop, hstart, List.drop_left]
  have hlen := congrArg List.length hstart
  have hpos := List.length_pos_iff.mpr t.lexeme.chars_ne_nil
  rw [List.length_drop, List.length_append] at hlen
  refine ⟨after, hstart, sp.wellFormed, sp.endsBefore, ?_, hstop ▸ sp.cutAfter⟩
  rw [Token.stop]
  omega

theorem Ahead.at_front (h : Ahead text n ts) : Ahead text (front text ts) ts := by
  cases ts with
  | nil =>
    refine ⟨Nat.le_refl _, ?_⟩
    rw [front, List.drop_length]
    exact .done
  | cons t ts =>
    obtain ⟨rest, hfront⟩ := h.inFront
    have hstop := hfront.ahead.le
    refine ⟨Nat.le_trans (Nat.le_add_right _ _) hstop, ?_⟩
    have hrest : text.drop t.stop = rest := by
      rw [Token.stop, ← List.drop_drop, hfront.drop_eq, List.drop_left]
    rw [front, hfront.drop_eq]
    exact .token hfront.wellFormed hfront.endsBefore (hrest ▸ hfront.ahead.cut)

/-- The first character at the front is the first of the first token. -/
theorem Ahead.head?_drop_front (h : Ahead text n ts) :
    (text.drop (front text ts)).head? = ts.head?.map fun t => t.lexeme.head := by
  cases ts with
  | nil =>
    rw [front, List.drop_length]
    rfl
  | cons t ts =>
    obtain ⟨rest, hfront⟩ := h.inFront
    rw [front, hfront.drop_eq, t.lexeme.head?_chars_append]
    rfl

theorem Cut.length_le (h : Cut n ts cs) : ts.length ≤ cs.length := by
  induction h with
  | done => exact Nat.le_refl 0
  | blank _ _ ih => exact Nat.le_succ_of_le ih
  | @token n l ts cs _ _ _ ih =>
    have hpos := List.length_pos_iff.mpr l.chars_ne_nil
    rw [List.length_cons, List.length_append]
    omega

theorem Ahead.length_le (h : Ahead text n ts) : ts.length ≤ text.length :=
  Nat.le_trans h.cut.length_le (List.drop_sublist n text).length_le

/-! ### Taking tokens -/

/-- Tokens that have a text of their own. -/
def Lexeme.IsMark (l : Lexeme) : Prop := l.WellFormed ∧ isNumeral l.head = false

theorem isMark_opening : Lexeme.opening.IsMark := ⟨trivial, by decide⟩

theorem isMark_closing : Lexeme.closing.IsMark := ⟨trivial, by decide⟩

theorem isMark_of_mem_operators {c : Category} : ∀ choice ∈ c.operators, choice.1.IsMark := by
  cases c <;> simp [Category.operators, Lexeme.IsMark, Lexeme.WellFormed, Lexeme.head, isNumeral]

theorem isMark_of_mem_signs : ∀ choice ∈ signs, choice.1.IsMark := by
  simp [signs, Lexeme.IsMark, Lexeme.WellFormed, Lexeme.head, isNumeral]

theorem mem_operators_iff {c : Category} {l : Lexeme} {op : Operator} :
    (l, op) ∈ c.operators ↔ op.whole = c ∧ l ∈ op.lexemes := by
  cases c <;> cases op <;> simp [Category.operators, Operator.whole, Operator.lexemes]

theorem mem_signs_iff {l : Lexeme} {s : Sign} : (l, s) ∈ signs ↔ l = s.lexeme := by
  cases s <;> simp [signs, Sign.lexeme]

/-- Such a token begins a text exactly if it is the first token of the text. -/
theorem Lexeme.IsMark.begins_iff {l m : Lexeme} (hl : l.IsMark) {rest : List Char}
    (hm : m.WellFormed) (hends : m.EndsBefore rest.head?) :
    l.begins (m.chars ++ rest) = true ↔ m = l := by
  rw [Lexeme.begins, Bool.and_eq_true, List.isPrefixOf_iff_prefix, Bool.or_eq_true, bne_iff_ne,
    bne_iff_ne]
  constructor
  · rintro ⟨hfirst, hstar⟩
    have hhead : m.head = l.head := by
      obtain ⟨ds, hds⟩ := hfirst
      have h := congrArg List.head? hds
      rw [l.head?_chars_append, m.head?_chars_append] at h
      exact (Option.some.inj h).symm
    obtain rfl | ⟨c, _, cs, -, rfl⟩ | ⟨hms, hls⟩ := hm.eq_or_alike hl.1 hhead
    · rfl
    · exact absurd (hl.1.1.symm.trans hl.2) (by decide)
    · -- one star or two, as what follows tells
      simp only [List.mem_cons, List.not_mem_nil, or_false] at hms hls
      obtain rfl | rfl := hms <;> obtain rfl | rfl := hls
      · rfl
      · obtain ⟨ds, hds⟩ := hfirst
        obtain rfl : rest = '*' :: ds := (List.cons.inj hds).2.symm
        exact absurd rfl hends
      · obtain h | h := hstar
        · exact absurd rfl h
        · exact absurd rfl h
      · rfl
  · rintro rfl
    refine ⟨List.prefix_append _ _, or_iff_not_imp_left.mpr fun hs => ?_⟩
    obtain rfl := not_not.mp hs
    cases rest with
    | nil => decide
    | cons c rest => exact fun h => hends (Option.some.inj h)

theorem takeWhile_numerals {l : Lexeme} {ch : Char} {cs rest : List Char} (hl : l = .numerals ch cs)
    (hwf : l.WellFormed) (hends : l.EndsBefore rest.head?) :
    (l.chars ++ rest).takeWhile isNumeral = ch :: cs := by
  subst hl
  have hall : ∀ e ∈ ch :: cs, isNumeral e = true := List.forall_mem_cons.mpr hwf
  show (ch :: cs ++ rest).takeWhile isNumeral = _
  rw [List.takeWhile_append_of_pos hall]
  cases rest with
  | nil => rw [List.takeWhile_nil, List.append_nil]
  | cons e rest =>
    have he : isNumeral e = false := hends
    rw [List.takeWhile_cons, he, if_neg Bool.false_ne_true, List.append_nil]

end Tokens

namespace Descent

variable {α β : Type} {text : List Char} {p : Place} {n : Nat} {tr : Trail} {t : Token}
  {ts : List Token} {l : Lexeme}

theorem skipBlanks_of_ahead (h : Ahead text n ts) (htr : tr.now = p.movedTo n) :
    ∃ u, skipBlanks text tr = (.ok (), u) ∧ u.now = p.movedTo (front text ts) := by
  refine ⟨_, skipBlanks_apply text tr, ?_⟩
  rw [htr, ← h.add_blanks]
  rfl

/-- The token is taken if it is the first. -/
theorem eat_first (h : Ahead text n (t :: ts)) (htr : tr.now = p.movedTo n)
    (hl : t.lexeme.IsMark) :
    ∃ u, eat text t.lexeme tr = (.ok true, u) ∧ u.now = p.movedTo t.stop := by
  obtain ⟨u, hu, hnow⟩ := skipBlanks_of_ahead h htr
  obtain ⟨rest, hfront⟩ := h.inFront
  have hbegins : t.lexeme.begins (text.drop u.now.position) = true := by
    rw [hnow]
    show t.lexeme.begins (text.drop t.start) = true
    rw [hfront.drop_eq]
    exact (hl.begins_iff hfront.wellFormed hfront.endsBefore).mpr rfl
  refine ⟨_, eat_of_begins hu hbegins, ?_⟩
  rw [hnow]
  rfl

/-- Otherwise only the blanks are. -/
theorem eat_other (h : Ahead text n ts) (htr : tr.now = p.movedTo n) (hl : l.IsMark)
    (hne : ∀ t ∈ ts.head?, t.lexeme ≠ l) :
    ∃ u, eat text l tr = (.ok false, u) ∧ u.now = p.movedTo (front text ts) := by
  obtain ⟨u, hu, hnow⟩ := skipBlanks_of_ahead h htr
  have hbegins : l.begins (text.drop u.now.position) = false := by
    rw [hnow]
    show l.begins (text.drop (front text ts)) = false
    cases ts with
    | nil =>
      rw [front, List.drop_length]
      cases l <;> rfl
    | cons t ts =>
      obtain ⟨rest, hfront⟩ := h.inFront
      rw [front, hfront.drop_eq, ← Bool.not_eq_true,
        hl.begins_iff hfront.wellFormed hfront.endsBefore]
      exact hne t rfl
  exact ⟨u, eat_of_not_begins hu hbegins, hnow⟩

/-- What taking the first of some tokens comes to in front of tokens. -/
inductive Takes (text : List Char) (choices : List (Lexeme × β)) (ts : List Token) (p : Place)
    (r : Except Halt (Option β) × Trail) : Prop
  | first {t : Token} {us : List Token} {b : β} {u : Trail} (hts : ts = t :: us)
      (hb : (t.lexeme, b) ∈ choices) (hr : r = (.ok (some b), u)) (hu : u.now = p.movedTo t.stop)
  | other {n : Nat} {u : Trail} (hne : ∀ t ∈ ts.head?, ∀ b, (t.lexeme, b) ∉ choices)
      (h : Ahead text n ts) (hr : r = (.ok none, u)) (hu : u.now = p.movedTo n)

theorem takes_eatFirst {choices : List (Lexeme × β)} (hmarks : ∀ choice ∈ choices, choice.1.IsMark)
    (h : Ahead text n ts) (htr : tr.now = p.movedTo n) :
    Takes text choices ts p (eatFirst text choices tr) := by
  induction choices generalizing n tr with
  | nil => exact .other (fun _ _ _ => List.not_mem_nil) h rfl htr
  | cons choice choices ih =>
    obtain ⟨l, b⟩ := choice
    obtain ⟨hl, hmarks⟩ := List.forall_mem_cons.mp hmarks
    by_cases hfirst : ∃ t ∈ ts.head?, t.lexeme = l
    · obtain ⟨t, ht, rfl⟩ := hfirst
      obtain ⟨us, rfl⟩ := List.head?_eq_some_iff.mp ht
      obtain ⟨u, hu, hnow⟩ := eat_first h htr hl
      exact .first rfl List.mem_cons_self (bind_of_ok hu) hnow
    · have hne : ∀ t ∈ ts.head?, t.lexeme ≠ l := fun t ht heq => hfirst ⟨t, ht, heq⟩
      obtain ⟨u, hu, hnow⟩ := eat_other h htr hl hne
      have hrun : eatFirst text ((l, b) :: choices) tr = eatFirst text choices u := bind_of_ok hu
      rw [hrun]
      cases ih hmarks h.at_front hnow with
      | first hts hb hr hu => exact .first hts (List.mem_cons_of_mem _ hb) hr hu
      | other hne' h hr hu =>
        refine .other (fun t ht b' hb' => ?_) h hr hu
        obtain heq | hb' := List.mem_cons.mp hb'
        · exact hne t ht (congrArg Prod.fst heq)
        · exact hne' t ht b' hb'

/-- The character here is the first of the first token. -/
theorem current_of_front (h : Ahead text n ts) (htr : tr.now = p.movedTo (front text ts)) :
    current text tr = (.ok (ts.head?.map fun t => t.lexeme.head), tr) := by
  have hcurrent : current text tr = (.ok (text.drop tr.now.position).head?, tr) := rfl
  rw [hcurrent, htr]
  exact congrArg (fun o => (Except.ok o, tr)) h.head?_drop_front

theorem fail_of_eq (cause : Cause) (htr : tr.now = p.movedTo n) :
    (fail cause : Descent α) tr = (.error (.fault ⟨cause, n⟩), tr) := by
  have hfail : (fail cause : Descent α) tr = (.error (.fault ⟨cause, tr.now.position⟩), tr) := rfl
  rw [hfail, htr]
  rfl

end Descent

end Reckoner.Expression
