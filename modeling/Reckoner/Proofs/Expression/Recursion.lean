import Reckoner.Proofs.Expression.Ahead
import Reckoner.Proofs.Expression.Parsing

/-!
# The descent and the reader

The descent calls itself; the reader keeps frames. Both read every text in the same way. What a
routine reads is what the reader reads behind frames, the open parts of the calls around it, and
where one of them stops with a fault, so does the other (`Agrees`). Every routine agrees with the
reader if the routines that it calls do (`handles_routine`), so each of them does as long as enough
calls are allowed (`handles_call`). Together with the bounds of the descent this says how deep the
reading of a text can go (`parse_bounded`).
-/

namespace Reckoner.Expression

/-! ### Where the reader stops -/

section Failing

variable {α : Type} {I : Interpretation α} {text : List Char} {c c' : Category}
  {F G : List (Frame α)} {frame : Frame α} {x : α} {t : Token} {ts us ws : List Token} {n : Nat}
  {f : Fault}

/-- Reading on to the end of a text, at position `n`. -/
def readOn (I : Interpretation α) (n : Nat) (r : Reading α) (ts : List Token) :
    Except (Stuck α) α :=
  ts.foldlM (Reading.step I) r >>= fun r => r.finish I n

/-- Behind the frames, the tokens up to the end of the text are refused with the fault. -/
def Fails (I : Interpretation α) (text : List Char) (F : List (Frame α)) (ts : List Token)
    (f : Fault) : Prop :=
  ∃ e, readOn I text.length ⟨F, none⟩ ts = .error e ∧ e.fault = f

/-- None of the operators that a part of the category could go on with stands next. -/
def Stops (c : Category) (ts : List Token) : Prop :=
  ∀ t ∈ ts.head?, ∀ op : Operator, t.lexeme ∈ op.lexemes → c.level < op.whole.level

/-- No operator belongs to a signed part or to an atom. -/
theorem stops_of_le_signed (hc : c.level ≤ Category.signed.level) (ts : List Token) : Stops c ts :=
  fun _ _ op _ => Nat.lt_of_le_of_lt hc (signed_lt_whole op)

theorem Category.level_inj {c c' : Category} (h : c.level = c'.level) : c = c' := by
  cases c <;> cases c' <;> first | rfl | cases h

/-- A category goes on with no more operators than the next smaller one and its own. -/
theorem stops_of_not_mem (hc : c.level ≤ c'.level + 1) (h : Stops c' ts)
    (hne : ∀ t ∈ ts.head?, ∀ op, (t.lexeme, op) ∉ c.operators) : Stops c ts := by
  intro t ht op hl
  have hlt := h t ht op hl
  have hwhole : op.whole.level ≠ c.level := fun heq =>
    hne t ht op (mem_operators_iff.mpr ⟨Category.level_inj heq, hl⟩)
  omega

/-- No operator goes on with an expression. -/
theorem Stops.operator?_eq_none (h : Stops .expression (t :: ts)) : t.lexeme.operator? = none := by
  cases hop : t.lexeme.operator? with
  | none => rfl
  | some op =>
    have hlt := h t rfl op (Operator.operator?_eq_some_iff.mp hop)
    cases op <;> exact absurd hlt (by decide)

theorem Puts.fails (h : Puts I F ts frame n)
    (hroom : frame.nests = true → depth (frame :: F) ≤ nestingLimit)
    (hf : Fails I text (frame :: F) us f) : Fails I text F (ts ++ us) f := by
  obtain ⟨e, he, hfault⟩ := hf
  exact ⟨e, by rw [readOn, h.foldlM hroom]; exact he, hfault⟩

theorem Puts.fails_tooDeep (h : Puts I F ts frame n) (hnests : frame.nests = true)
    (hfull : nestingLimit < depth (frame :: F)) :
    Fails I text F (ts ++ us) ⟨.tooDeep, n⟩ := by
  refine ⟨⟨⟨.tooDeep, n⟩, ⟨frame :: F, none⟩⟩, ?_, rfl⟩
  rw [readOn, h us, push, if_pos (by rw [hnests, Bool.true_and]; exact decide_eq_true hfull)]
  rfl

theorem fails_of_step {e : Stuck α} (h : Reading.step I ⟨F, none⟩ t = .error e) :
    Fails I text F (t :: us) e.fault :=
  ⟨e, by rw [readOn, List.foldlM_cons, h]; rfl, rfl⟩

/-- What can begin no operand. -/
theorem step_of_not_begins (hl : t.lexeme.WellFormed) (hn : isNumeral t.lexeme.head = false)
    (hopen : t.lexeme ≠ .opening) (hsign : ∀ s : Sign, t.lexeme ≠ s.lexeme) :
    Reading.step I ⟨F, none⟩ t = .error ⟨⟨.unexpected t.lexeme.head, t.start⟩, ⟨F, none⟩⟩ := by
  obtain ⟨l, start⟩ := t
  cases l with
  | numerals => exact absurd (hl.1.symm.trans hn) (by decide)
  | opening => exact absurd rfl hopen
  | plus => exact absurd rfl (hsign .plus)
  | minus => exact absurd rfl (hsign .minus)
  | _ => rfl

/-- What cannot follow an expression. -/
theorem fails_of_stops (h : Reads I .expression G us x) (hsettle : settle I none G x = (G, x))
    (hstops : Stops .expression (t :: ws)) (hclose : t.lexeme = .closing → G = []) :
    Fails I text G (us ++ t :: ws) (refuse G x t.lexeme.head t.start).fault := by
  obtain ⟨F', y, hrun, hsettled⟩ := h
  have hs : settle I none F' y = (G, x) := (hsettled none (Nat.le_refl _)).trans hsettle
  have hstep : Reading.step I ⟨F', some y⟩ t = .error (refuse G x t.lexeme.head t.start) := by
    show continueOperand I F' y t = _
    simp only [continueOperand, hstops.operator?_eq_none, hs]
    split_ifs with hc
    · rw [hclose hc]
    · rfl
  refine ⟨_, ?_, rfl⟩
  rw [readOn, foldlM_step_append hrun, List.foldlM_cons, hstep]
  rfl

/-- A group that is not closed. -/
theorem fails_unclosed (h : Reads I .expression (.group :: F) us x) (hstops : Stops .expression ws)
    (hclose : ∀ t ∈ ws.head?, t.lexeme ≠ .closing) :
    Fails I text (.group :: F) (us ++ ws)
      ⟨.unclosed (ws.head?.map fun t => t.lexeme.head), front text ws⟩ := by
  cases ws with
  | nil =>
    obtain ⟨F', y, hrun, hsettled⟩ := h
    have hs : settle I none F' y = (.group :: F, x) := hsettled none (Nat.le_refl _)
    refine ⟨⟨⟨.unclosed none, text.length⟩, ⟨.group :: F, some x⟩⟩, ?_, rfl⟩
    rw [readOn, List.append_nil, hrun]
    show Reading.finish I ⟨F', some y⟩ text.length = _
    simp only [Reading.finish, hs]
  | cons t ws => exact fails_of_stops h rfl hstops fun hc => absurd hc (hclose t rfl)

end Failing

/-! ### Agreement -/

namespace Descent

variable {α : Type} {I : Interpretation α} {text : List Char} {c c' : Category}
  {F G : List (Frame α)} {frame : Frame α} {ts us : List Token} {p : Place} {n d : Nat}
  {tr : Trail} {m : Descent α} {f : α → Descent α}

/-- The tokens `ts` have been read as the operand `x`, of the category and behind the frames. At
position `n` the tokens `us` stand ahead, and no such operand goes on with them. -/
structure Reached (I : Interpretation α) (text : List Char) (c : Category) (F : List (Frame α))
    (ts us : List Token) (x : α) (n : Nat) : Prop where
  reads : Reads I c F ts x
  ahead : Ahead text n us
  stops : Stops c us

/-- The descent and the reader agree on the tokens ahead: either some of them are read as an
operand, and nothing but the position is another than at the place `p`, or both stop with the same
fault. -/
inductive Agrees (I : Interpretation α) (text : List Char) (c : Category) (F : List (Frame α))
    (ts : List Token) (p : Place) (r : Except Halt α × Trail) : Prop
  | done {us vs : List Token} {x : α} {n : Nat} {u : Trail} (hts : ts = us ++ vs)
      (h : Reached I text c F us vs x n) (hr : r = (.ok x, u)) (hu : u.now = p.movedTo n)
  | fault {f : Fault} {u : Trail} (h : Fails I text F ts f) (hr : r = (.error (.fault f), u))

theorem Agrees.widen {r : Except Halt α × Trail} (h : Agrees I text c F ts p r)
    (hc : c.level ≤ c'.level) (hstops : ∀ us, Stops c' us) : Agrees I text c' F ts p r := by
  cases h with
  | done hts h hr hu => exact .done hts ⟨h.reads.widen hc, h.ahead, hstops _⟩ hr hu
  | fault h hr => exact .fault h hr

theorem Agrees.bind (h : Agrees I text c' G us p (m tr))
    (hfails : ∀ e, Fails I text G us e → Fails I text F ts e)
    (hdone : ∀ {vs ws : List Token} {x : α} {n : Nat} {u : Trail}, us = vs ++ ws →
      Reached I text c' G vs ws x n → u.now = p.movedTo n → Agrees I text c F ts p (f x u)) :
    Agrees I text c F ts p ((m >>= f) tr) := by
  cases h with
  | done hts h hr hu =>
    rw [bind_of_ok hr]
    exact hdone hts h hu
  | fault h hr =>
    rw [bind_of_error hr]
    exact .fault (hfails _ h) rfl

/-- At the nesting `d` the part reads what the category may be behind frames with this nesting. An
atom is asked for only where no sign stands. -/
def Handles (I : Interpretation α) (text : List Char) (c : Category) (d : Nat) (m : Descent α) :
    Prop :=
  ∀ (F : List (Frame α)) (ts : List Token) (p : Place) (n : Nat) (tr : Trail), Ahead text n ts →
    tr.now = p.movedTo n → p.depth = d → depth F = d → c.BeginsBehind F →
    (c = .atom → ∀ t ∈ ts.head?, ∀ s : Sign, t.lexeme ≠ s.lexeme) →
    Agrees I text c F ts p (m tr)

theorem Handles.called (h : Handles I text c d m) : Handles I text c d (called m) := by
  intro F ts p n tr hahead htr hd hF hbehind hsign
  have hopened : (tr.become tr.now.opened).now = p.opened.movedTo n := by
    show tr.now.opened = _
    rw [htr]
    rfl
  cases h F ts p.opened n (tr.become tr.now.opened) hahead hopened hd hF hbehind hsign with
  | @done us vs x k u hts hreached hr hu =>
    have hrun : Descent.called m tr = (.ok x, u.become u.now.closed) := by
      rw [Descent.called, hr]
    refine .done hts hreached hrun ?_
    show u.now.closed = _
    rw [hu]
    rfl
  | @fault e u hf hr =>
    have hrun : Descent.called m tr = (.error (.fault e), u.become u.now.closed) := by
      rw [Descent.called, hr]
    exact .fault hf hrun

/-- One level further in, the reader has one more frame. -/
theorem Handles.nested_bind (hm : d < nestingLimit → Handles I text c' (d + 1) m)
    (hatom : c' ≠ .atom) (hbehind : c'.BeginsBehind (frame :: F)) (hnests : frame.nests = true)
    (hputs : Puts I F ts frame n) (hahead : Ahead text n us) (htr : tr.now = p.movedTo n)
    (hd : p.depth = d) (hF : depth F = d)
    (hdone : ∀ {vs ws : List Token} {x : α} {k : Nat} {u : Trail},
      depth (frame :: F) ≤ nestingLimit → us = vs ++ ws →
      Reached I text c' (frame :: F) vs ws x k → u.now = p.movedTo k →
        Agrees I text c F (ts ++ us) p (f x u)) :
    Agrees I text c F (ts ++ us) p ((nested m >>= f) tr) := by
  have hframe : depth (frame :: F) = d + 1 := by
    rw [depth, List.countP_cons_of_pos hnests, ← hF, depth]
  have hdepth : tr.now.depth = d := by
    rw [htr]
    exact hd
  by_cases hlt : d < nestingLimit
  · have hroom : depth (frame :: F) ≤ nestingLimit := hframe.trans_le hlt
    have hinner : (tr.become tr.now.inner).now = p.inner.movedTo n := by
      show tr.now.inner = _
      rw [htr]
      rfl
    cases hm hlt (frame :: F) us p.inner n (tr.become tr.now.inner) hahead hinner
      (congrArg Nat.succ hd) hframe hbehind fun hc => absurd hc hatom with
    | @done vs ws x k u hts h hr hu =>
      have hne : u.now.depth ≠ 0 := by
        rw [hu]
        exact Nat.succ_ne_zero _
      have hback : (u.become u.now.outer).now = p.movedTo k := by
        show u.now.outer = _
        rw [hu]
        rfl
      rw [bind_of_ok (nested_of_ok (hdepth ▸ hlt) hr hne)]
      exact hdone hroom hts h hback
    | fault h hr =>
      rw [bind_of_error (nested_of_error (hdepth ▸ hlt) hr)]
      exact .fault (hputs.fails (fun _ => hroom) h) rfl
  · have hfull : nestingLimit < depth (frame :: F) := by omega
    have hpos : tr.now.position = n := by
      rw [htr]
      rfl
    rw [bind_of_error (nested_of_tooDeep (hdepth ▸ Nat.not_lt.mp hlt)), hpos]
    exact .fault (hputs.fails_tooDeep hnests hfull) rfl

/-! ### The routines -/

section Routines

variable {call : Category → Descent α} {t : Token}

/-- A run of digits and points is a literal for both or for neither. -/
theorem agrees_number {ch : Char} {cs : List Char} (h : Ahead text t.start (t :: us))
    (htr : tr.now = p.movedTo t.start) (hl : t.lexeme = .numerals ch cs) :
    Agrees I text .atom F (t :: us) p (number text I tr) := by
  obtain ⟨rest, hfront⟩ := h.inFront
  have hpos : tr.now.position = t.start := by
    rw [htr]
    rfl
  have hrun : (text.drop tr.now.position).takeWhile isNumeral = ch :: cs := by
    rw [hpos, hfront.drop_eq, takeWhile_numerals hl hfront.wellFormed hfront.endsBefore]
  cases hlit : Literal.ofChars? (ch :: cs) with
  | none =>
    rw [number_of_none hrun hlit, hpos]
    refine .fault (fails_of_step (e := ⟨⟨.malformed (ch :: cs), t.start⟩, ⟨F, none⟩⟩) ?_) rfl
    rw [Reading.step, beginOperand, hl]
    simp only [hlit]
  | some l =>
    have hread : Reads I .atom F [t] (I.literal l) :=
      .literal hl (Literal.ofChars?_eq_some_iff.mp hlit)
    have hstop : t.start + (ch :: cs).length = t.stop := by
      rw [Token.stop, hl]
      rfl
    rw [number_of_some hrun hlit, hpos, htr, hstop]
    exact .done rfl ⟨hread, hfront.ahead, stops_of_le_signed (by decide) us⟩ rfl rfl

/-- Behind the expression in a group stands the closing parenthesis, or a fault. -/
theorem agrees_close {vs ws : List Token} {x : α} (hopen : t.lexeme = .opening)
    (hroom : depth (.group :: F) ≤ nestingLimit)
    (h : Reached I text .expression (.group :: F) vs ws x n) (htr : tr.now = p.movedTo n) :
    Agrees I text .atom F (t :: (vs ++ ws)) p ((do
      if ← eat text .closing then return I.group x
      else fail (.unclosed (← current text)) : Descent α) tr) := by
  by_cases hclose : ∃ t' ∈ ws.head?, t'.lexeme = .closing
  · obtain ⟨t', ht', hclose⟩ := hclose
    obtain ⟨ws, rfl⟩ := List.head?_eq_some_iff.mp ht'
    obtain ⟨u, hu, hnow⟩ := eat_first h.ahead htr (hclose ▸ isMark_closing)
    obtain ⟨rest, hfront⟩ := h.ahead.inFront
    have hsplit : t :: (vs ++ t' :: ws) = t :: (vs ++ [t']) ++ ws := by simp
    rw [bind_of_ok (hclose ▸ hu)]
    exact .done hsplit ⟨h.reads.group hopen hclose hroom, hfront.ahead,
      stops_of_le_signed (by decide) ws⟩ rfl hnow
  · have hne : ∀ t' ∈ ws.head?, t'.lexeme ≠ .closing := fun t' ht' heq => hclose ⟨t', ht', heq⟩
    obtain ⟨u, hu, hnow⟩ := eat_other h.ahead htr isMark_closing hne
    have hfault : Fails I text F (t :: (vs ++ ws)) _ :=
      (puts_group hopen).fails (fun _ => hroom) (fails_unclosed h.reads h.stops hne)
    rw [bind_of_ok hu]
    refine .fault (u := u) hfault ?_
    show (current text >>= fun next => fail (.unclosed next)) u = _
    rw [bind_of_ok (current_of_front h.ahead hnow), fail_of_eq _ hnow]

theorem handles_atom
    (hdeeper : d < nestingLimit → Handles I text .expression (d + 1) (call .expression)) :
    Handles I text .atom d (routine text I call .atom) := by
  intro F ts p n tr h htr hd hF _ hsign
  by_cases hopen : ∃ t ∈ ts.head?, t.lexeme = .opening
  · obtain ⟨t, ht, hopen⟩ := hopen
    obtain ⟨us, rfl⟩ := List.head?_eq_some_iff.mp ht
    obtain ⟨u, hu, hnow⟩ := eat_first h htr (hopen ▸ isMark_opening)
    obtain ⟨rest, hfront⟩ := h.inFront
    have hrun : routine text I call .atom tr = (nested (call .expression) >>= fun inner => do
        if ← eat text .closing then return I.group inner
        else fail (.unclosed (← current text))) u := bind_of_ok (hopen ▸ hu)
    have hbehind : Category.expression.BeginsBehind (.group :: F) := trivial
    rw [hrun]
    refine Handles.nested_bind hdeeper (by decide) hbehind rfl (puts_group hopen) hfront.ahead hnow
      hd hF ?_
    rintro vs ws x k v hroom rfl hreached hv
    have hclose := agrees_close hopen hroom hreached hv
    exact hclose
  · have hne : ∀ t ∈ ts.head?, t.lexeme ≠ .opening := fun t ht heq => hopen ⟨t, ht, heq⟩
    obtain ⟨u, hu, hnow⟩ := eat_other h htr isMark_opening hne
    have hrun : routine text I call .atom tr = (current text >>= _) u := bind_of_ok hu
    rw [hrun, bind_of_ok (current_of_front h hnow)]
    cases ts with
    | nil =>
      have hfault : Fails I text F [] ⟨.incomplete, text.length⟩ := ⟨_, rfl, rfl⟩
      exact .fault hfault (fail_of_eq _ hnow)
    | cons t us =>
      obtain ⟨rest, hfront⟩ := h.inFront
      have hhead : t.lexeme.head ∈ t.lexeme.chars := List.mem_of_head? t.lexeme.head?_chars
      show Agrees I text .atom F (t :: us) p ((if isNumeral t.lexeme.head = true
        then number text I else fail (.unexpected t.lexeme.head) : Descent α) u)
      by_cases hn : isNumeral t.lexeme.head = true
      · obtain ⟨ch, cs, hl⟩ := hfront.wellFormed.numerals_of_mem hhead hn
        rw [if_pos hn]
        exact agrees_number h.at_front hnow hl
      · rw [if_neg hn, fail_of_eq _ hnow]
        exact .fault (fails_of_step (step_of_not_begins hfront.wellFormed (Bool.not_eq_true _ ▸ hn)
          (hne t rfl) (hsign rfl t rfl))) rfl

theorem handles_signed (hatom : Handles I text .atom d (call .atom))
    (hdeeper : d < nestingLimit → Handles I text .signed (d + 1) (call .signed)) :
    Handles I text .signed d (routine text I call .signed) := by
  intro F ts p n tr h htr hd hF hbehind _
  have hrun : routine text I call .signed tr = (eatFirst text signs >>= _) tr := rfl
  rw [hrun]
  cases takes_eatFirst isMark_of_mem_signs h htr with
  | @first t us s u hts hs hr hu =>
    subst hts
    rw [mem_signs_iff] at hs
    obtain ⟨rest, hfront⟩ := h.inFront
    rw [bind_of_ok hr]
    refine Handles.nested_bind hdeeper (by decide) (Nat.le_refl _) rfl (puts_sign hs) hfront.ahead
      hu hd hF ?_
    rintro vs ws x k v hroom rfl hreached hv
    have hread : Reads I .signed F (t :: vs) (I.sign s x) := hreached.reads.sign hs hroom
    have hsplit : [t] ++ (vs ++ ws) = t :: vs ++ ws := rfl
    exact .done hsplit ⟨hread, hreached.ahead, hreached.stops⟩ rfl hv
  | @other k u hne hahead hr hu =>
    have hagrees := hatom F ts p k u hahead hu hd hF (hbehind.mono (by decide))
      fun _ t ht s hs => hne t ht s (mem_signs_iff.mpr hs)
    rw [bind_of_ok hr]
    exact hagrees.widen (by decide) (stops_of_le_signed (Nat.le_refl _))

theorem handles_factor (hsigned : Handles I text .signed d (call .signed))
    (hdeeper : d < nestingLimit → Handles I text .factor (d + 1) (call .factor)) :
    Handles I text .factor d (routine text I call .factor) := by
  intro F ts p n tr h htr hd hF hbehind _
  refine (hsigned F ts p n tr h htr hd hF (hbehind.mono (by decide)) fun hc => nomatch hc).bind
    (fun _ hf => hf) ?_
  rintro vs ws x k u rfl hreached hu
  cases takes_eatFirst (isMark_of_mem_operators (c := .factor)) hreached.ahead hu with
  | @first t us op v hts hop hr hv =>
    subst hts
    obtain ⟨hwhole, ht⟩ := mem_operators_iff.mp hop
    obtain rfl : op = .power := by
      cases op with
      | power => rfl
      | _ => exact absurd hwhole (by decide)
    obtain ⟨rest, hfront⟩ := hreached.ahead.inFront
    have hputs : Puts I F (vs ++ [t]) (.left x .power) t.stop :=
      hreached.reads.puts_left ht hbehind
    have hsplit : vs ++ t :: us = vs ++ [t] ++ us := by simp
    rw [bind_of_ok hr, hsplit]
    refine Handles.nested_bind hdeeper (by decide) (Nat.le_refl _) rfl hputs hfront.ahead hv hd hF
      ?_
    rintro vs' ws' y k' w hroom rfl hreached' hw
    have hread : Reads I .factor F (vs ++ t :: vs') (I.apply .power x y) :=
      hreached.reads.binary ht hbehind (fun _ => hroom) hreached'.reads
    have hsplit' : vs ++ [t] ++ (vs' ++ ws') = vs ++ t :: vs' ++ ws' := by simp
    exact .done hsplit' ⟨hread, hreached'.ahead, hreached'.stops⟩ rfl hw
  | @other k' v hne hahead hr hv =>
    rw [bind_of_ok hr]
    exact .done rfl ⟨hreached.reads.widen (by decide), hahead,
      stops_of_not_mem (Nat.le_refl _) hreached.stops hne⟩ rfl hv

/-- What has been read as the operand `x` goes on with operators of the category and parts of the
next smaller one. -/
theorem agrees_chain {part : Descent α} (hc : c.level = c'.level + 1)
    (hparts : ∀ op : Operator, op.whole = c → op.leftPart = c ∧ op.rightPart = c' ∧ op ≠ .power)
    (hatom : c' ≠ .atom) (hpart : Handles I text c' d part) (hd : p.depth = d) (hF : depth F = d)
    (hbehind : c.BeginsBehind F) {turns : Nat} {vs ws : List Token} {x : α}
    (hread : Reads I c F vs x) (hahead : Ahead text n ws) (hstops : Stops c' ws)
    (htr : tr.now = p.movedTo n) (hturns : ws.length < turns) :
    Agrees I text c F (vs ++ ws) p (chain text I c.operators part turns x tr) := by
  induction turns generalizing vs ws x n tr with
  | zero => exact absurd hturns (Nat.not_lt_zero _)
  | succ turns ih =>
    have hrun : chain text I c.operators part (turns + 1) x tr =
        (eatFirst text c.operators >>= _) tr := rfl
    rw [hrun]
    cases takes_eatFirst (isMark_of_mem_operators (c := c)) hahead htr with
    | @first t us op u hts hop hr hu =>
      subst hts
      obtain ⟨hwhole, ht⟩ := mem_operators_iff.mp hop
      obtain ⟨hleft, hright, hpower⟩ := hparts op hwhole
      obtain ⟨rest, hfront⟩ := hahead.inFront
      have hdepth : depth (.left x op :: F) = d := by
        rw [depth_left, hF, if_neg hpower, Nat.add_zero]
      -- the frame does not nest, so there is always room for it
      have hroom : (Frame.left x op).nests = true → depth (.left x op :: F) ≤ nestingLimit :=
        fun hn => absurd (of_decide_eq_true hn) hpower
      have hleftRead : Reads I op.leftPart F vs x := hleft ▸ hread
      have hopBehind : op.whole.BeginsBehind F := hwhole ▸ hbehind
      have hagrees : Agrees I text c' (.left x op :: F) us p (part u) :=
        hpart _ us p t.stop u hfront.ahead hu hd hdepth
          (hright ▸ Nat.le_refl op.rightPart.level) fun hc => absurd hc hatom
      have hsplit : vs ++ t :: us = vs ++ [t] ++ us := by simp
      rw [bind_of_ok hr, hsplit]
      refine hagrees.bind (fun e => (hleftRead.puts_left ht hopBehind).fails hroom) ?_
      rintro vs' ws' y k v rfl hreached hv
      have hnext : Reads I c F (vs ++ t :: vs') (I.apply op x y) := by
        rw [← hwhole]
        exact hleftRead.binary ht hopBehind hroom (hright ▸ hreached.reads)
      have hsplit' : vs ++ [t] ++ (vs' ++ ws') = vs ++ t :: vs' ++ ws' := by simp
      have hfewer : ws'.length < turns := by
        rw [List.length_cons, List.length_append] at hturns
        omega
      rw [hsplit']
      exact ih hnext hreached.ahead hreached.stops hv hfewer
    | @other k u hne hahead' hr hu =>
      rw [bind_of_ok hr]
      exact .done rfl ⟨hread, hahead', stops_of_not_mem hc.le hstops hne⟩ rfl hu

theorem handles_chain (hc : c.level = c'.level + 1)
    (hparts : ∀ op : Operator, op.whole = c → op.leftPart = c ∧ op.rightPart = c' ∧ op ≠ .power)
    (hatom : c' ≠ .atom) (hpart : Handles I text c' d (call c')) :
    Handles I text c d
      (call c' >>= chain text I c.operators (call c') (text.length + 1)) := by
  intro F ts p n tr h htr hd hF hbehind _
  have hlevel : c'.level ≤ c.level := hc ▸ Nat.le_succ _
  refine (hpart F ts p n tr h htr hd hF (hbehind.mono hlevel) fun hc => absurd hc hatom).bind
    (fun _ hf => hf) ?_
  rintro vs ws x k u rfl hreached hu
  exact agrees_chain hc hparts hatom hpart hd hF hbehind (hreached.reads.widen hlevel)
    hreached.ahead hreached.stops hu (Nat.lt_succ_of_le hreached.ahead.length_le)

/-- **A routine agrees with the reader** if the routines of smaller categories do, and all routines
one level further in. -/
theorem handles_routine (hsmaller : ∀ c', c'.level < c.level → Handles I text c' d (call c'))
    (hdeeper : d < nestingLimit → ∀ c', Handles I text c' (d + 1) (call c')) :
    Handles I text c d (routine text I call c) := by
  cases c with
  | expression =>
    have hparts (op : Operator) (h : op.whole = .expression) :
        op.leftPart = .expression ∧ op.rightPart = .term ∧ op ≠ .power := by
      cases op <;> first | exact absurd h (by decide) | decide
    exact handles_chain rfl hparts (by decide) (hsmaller .term (by decide))
  | term =>
    have hparts (op : Operator) (h : op.whole = .term) :
        op.leftPart = .term ∧ op.rightPart = .factor ∧ op ≠ .power := by
      cases op <;> first | exact absurd h (by decide) | decide
    exact handles_chain rfl hparts (by decide) (hsmaller .factor (by decide))
  | factor => exact handles_factor (hsmaller .signed (by decide)) fun hlt => hdeeper hlt .factor
  | signed => exact handles_signed (hsmaller .atom (by decide)) fun hlt => hdeeper hlt .signed
  | atom => exact handles_atom fun hlt => hdeeper hlt .expression

end Routines

/-! ### Enough calls -/

/-- **Every call agrees with the reader** if as many calls are allowed as it needs. -/
theorem handles_call {calls : Nat} (h : c.callsNeeded d ≤ calls) :
    Handles I text c d (call text I calls c) := by
  induction calls generalizing c d with
  | zero => exact absurd h (Nat.not_succ_le_zero _)
  | succ calls ih =>
    have hcallee {c' : Category} {d' : Nat} (hlt : c'.callsNeeded d' < c.callsNeeded d) :
        Handles I text c' d' (call text I calls c') :=
      ih (Nat.le_of_lt_succ (Nat.lt_of_lt_of_le hlt h))
    refine Handles.called (handles_routine ?_ ?_)
    · exact fun c' hc => hcallee (Category.callsNeeded_lt hc)
    · exact fun hlt c' => hcallee (Category.callsNeeded_deeper hlt c c')

/-- What stands behind an expression is the end of the text, or a fault. -/
theorem outcome_parse {calls : Nat} (h : Category.expression.callsNeeded 0 ≤ calls) :
    (parse text I calls .start).1 = (read I text).mapError fun e => .fault e.fault := by
  have hahead : Ahead text 0 (tokens text) := ⟨Nat.zero_le _, Cut.cut_tokens text⟩
  have hread : read I text = readTokens I (tokens text) text.length := rfl
  have hagrees : Agrees I text .expression [] (tokens text) ⟨0, 0, 0⟩
      (call text I calls .expression .start) :=
    handles_call h [] (tokens text) ⟨0, 0, 0⟩ 0 .start hahead rfl rfl rfl trivial
      fun hc => nomatch hc
  cases hagrees with
  | @fault f u hf hr =>
    obtain ⟨e, he, rfl⟩ := hf
    have hstuck : readTokens I (tokens text) text.length = .error e := he
    rw [parse, bind_of_error hr, hread, hstuck]
    rfl
  | @done us vs x n u hts hreached hr hu =>
    obtain ⟨v, hv, hnow⟩ := skipBlanks_of_ahead hreached.ahead hu
    rw [parse, bind_of_ok hr, bind_of_ok hv, bind_of_ok (current_of_front hreached.ahead hnow),
      hread, hts]
    cases vs with
    | nil =>
      rw [List.append_nil, hreached.reads.readTokens_eq]
      rfl
    | cons t vs =>
      obtain ⟨e, he, hfault⟩ : Fails I text [] (us ++ t :: vs) _ :=
        fails_of_stops hreached.reads rfl hreached.stops fun _ => rfl
      have hstuck : readTokens I (us ++ t :: vs) text.length = .error e := he
      show ((fail (.unexpected t.lexeme.head) : Descent α) v).1 = _
      rw [fail_of_eq _ hnow, hstuck]
      show Except.error (Halt.fault ⟨.unexpected t.lexeme.head, t.start⟩) = .error (.fault e.fault)
      rw [hfault]
      rfl

/-- **The descent is bounded, and it is what the reader does.** Five calls one inside the other for
each level of nesting, and five for no nesting, are enough: with so many allowed, it gives on every
text the operand or the fault that the reader gives, so it never wants another call, nor gives back
nesting that it has not entered. On the way it is never more than one level deeper than is allowed,
never has more than these calls open, and its position never decreases and never leaves the text.
Whatever is allowed and wherever it begins, a call that has a result ends at the nesting and with
the open calls that it began with. -/
theorem parse_bounded (I : Interpretation α) (text : List Char) (calls : Nat)
    (h : 5 * (nestingLimit + 1) ≤ calls) :
    let r := parse text I calls .start
    r.1 = (read I text).mapError (fun e => .fault e.fault) ∧
      (∀ p ∈ r.2.places, p.depth ≤ nestingLimit + 1 ∧ p.active ≤ 5 * (nestingLimit + 1) ∧
        p.position ≤ text.length) ∧
      (r.2.places.IsChain fun p q => q.position ≤ p.position) ∧
      ∀ (allowed : Nat) (c : Category) (t u : Trail) (x : α),
        call text I allowed c t = (.ok x, u) →
          u.now.depth = t.now.depth ∧ u.now.active = t.now.active ∧
            t.now.position ≤ u.now.position := by
  intro r
  have hneeded : Category.expression.callsNeeded 0 = 5 * (nestingLimit + 1) := rfl
  have hwithin := within_parse I text calls
  refine ⟨outcome_parse (hneeded ▸ h), fun p hp => ?_, hwithin.forward, ?_⟩
  · obtain ⟨hposition, hdepth, hactive⟩ := hwithin.le p hp
    exact ⟨hdepth, hactive, hposition⟩
  · exact fun allowed c t u x hcall => restores_call hcall

/-- Two groups side by side, the second one nested. -/
theorem parse_bounded_groups :
    let text := ['(', '1', ')', '+', '(', '(', '2', ')', ')']
    let r := parse text Derivation.trees 1285 .start
    5 * (nestingLimit + 1) ≤ 1285 ∧
      r.1 = .ok (.binary (.group (.literal ⟨['1'], by decide⟩)) .plus
        (.group (.group (.literal ⟨['2'], by decide⟩)))) ∧
      (∀ p ∈ r.2.places, p.depth ≤ 257 ∧ p.active ≤ 1285 ∧ p.position ≤ 9) ∧
      (r.2.places.IsChain fun p q => q.position ≤ p.position) := by
  intro text r
  obtain ⟨hresult, hbounds, hforward, -⟩ :=
    parse_bounded Derivation.trees text 1285 (by decide)
  exact ⟨by decide, hresult.trans rfl, hbounds, hforward⟩

end Descent

end Reckoner.Expression
