import Mathlib.Tactic.SplitIfs
import Reckoner.Proofs.Expression.Parsing

/-!
# Where expressions go wrong

A fault is reported at the first place where a text goes wrong: what stands in front of it can still
become an expression, and with what stands there it no longer can (`found_of_evaluate_eq_error`).

For the first half, whatever the reader has come to can be completed: an operand if one is wanted,
and as many closing parentheses as there are open groups, neither of which opens anything
(`begins_of_run`). For the second half, whether a token fits depends on its first character alone
(`Reading.Fits.of_head_eq`), so no text that begins in the same way can avoid the fault.
-/

namespace Reckoner.Expression

open Expression.Derivation (trees)

/-! ### What a fault says -/

/-- Some expression begins with the text. -/
def Begins (cs : List Char) : Prop := ∃ rest v, evaluate (String.ofList (cs ++ rest)) = .ok v

/-- At position `n` begins a run of digits and points, which is maximal at both ends. -/
def RunsAt (cs : List Char) (n : Nat) (run : List Char) : Prop :=
  ∃ before after, cs = before ++ (run ++ after) ∧ before.length = n ∧ run ≠ [] ∧
    (∀ c ∈ run, isNumeral c = true) ∧
    (∀ c, before.getLast? = some c → isNumeral c = false) ∧
    ∀ c, after.head? = some c → isNumeral c = false

/-- The text ends with a parenthesis, sign or power that is opened while as many of them are open
as are allowed. -/
def OpensTooMuch (cs : List Char) : Prop :=
  ∃ before ts l frame F, cs = before ++ Lexeme.chars l ∧ Cut 0 ts before ∧
    l ∈ [.opening, .plus, .minus, .caret, .doubleStar] ∧
    Opens (frame :: F) (ts.map Token.lexeme ++ [l]) ∧ frame.nests = true ∧ depth F = nestingLimit

/-- The fault is where the text goes wrong. -/
def Fault.FoundIn (f : Fault) (cs : List Char) : Prop :=
  f.position ≤ cs.length ∧
    match f.cause with
    | .unexpected c | .unclosed (some c) =>
      cs[f.position]? = some c ∧ Begins (cs.take f.position) ∧
        ¬ Begins (cs.take (f.position + 1))
    | .incomplete | .unclosed none => f.position = cs.length ∧ Begins cs
    | .malformed run =>
      RunsAt cs f.position run ∧ (run.any Char.isDigit = false ∨ 1 < run.count '.') ∧
        Begins (cs.take f.position)
    | .tooDeep => OpensTooMuch (cs.take f.position) ∧ ¬ Begins (cs.take f.position)

theorem begins_iff {cs : List Char} : Begins cs ↔ ∃ rest d, read trees (cs ++ rest) = .ok d := by
  constructor
  · rintro ⟨rest, v, h⟩
    rw [evaluate_eq, String.toList_ofList] at h
    cases hr : read trees (cs ++ rest) with
    | error e =>
      rw [hr] at h
      cases h
    | ok d => exact ⟨rest, d, hr⟩
  · rintro ⟨rest, d, h⟩
    refine ⟨rest, d.value, ?_⟩
    rw [evaluate_eq, String.toList_ofList, h]

/-! ### Completing what has been read -/

/-- Whether a frame is an open group. -/
def Frame.isGroup {α : Type} : Frame α → Bool
  | group => true
  | _ => false

/-- How many groups are open. -/
def openGroups (F : List (Frame Derivation)) : Nat := F.countP Frame.isGroup

variable {F : List (Frame Derivation)} {r : Reading Derivation} {cs : List Char}
  {ts pre post : List Token} {t : Token}

/-- Everything up to the innermost open group is settled at the end. -/
theorem settle_none (F : List (Frame Derivation)) (x : Derivation) :
    ((settle trees none F x).1 = [] ∧ openGroups F = 0) ∨
      ∃ outer, (settle trees none F x).1 = .group :: outer ∧
        openGroups F = openGroups outer + 1 := by
  induction F generalizing x with
  | nil => exact Or.inl ⟨rfl, rfl⟩
  | cons frame F ih =>
    cases frame with
    | group => exact Or.inr ⟨F, rfl, List.countP_cons_of_pos rfl⟩
    | sign s => exact ih (trees.sign s x)
    | left y op => exact ih (trees.apply op y x)

/-- Closing parentheses, one for each open group, leave an expression. -/
theorem exists_finish {k : Nat} (hF : openGroups F = k)
    (hts : ts.map Token.lexeme = List.replicate k .closing) (x : Derivation) :
    ∃ r, ts.foldlM (Reading.step trees) ⟨F, some x⟩ = .ok r ∧
      ∀ n, ∃ d, Reading.finish trees r n = .ok d := by
  induction k generalizing F ts x with
  | zero =>
    obtain rfl := List.map_eq_nil_iff.mp hts
    refine ⟨⟨F, some x⟩, rfl, fun n => ⟨(settle trees none F x).2, ?_⟩⟩
    obtain ⟨hs, -⟩ | ⟨outer, -, ho⟩ := settle_none F x
    · simp only [Reading.finish, hs]
    · omega
  | succ k ih =>
    obtain ⟨t, us, rfl, ht, hus⟩ := List.map_eq_cons_iff.mp hts
    obtain ⟨-, ho⟩ | ⟨outer, hs, ho⟩ := settle_none F x
    · omega
    · have hstep : Reading.step trees ⟨F, some x⟩ t =
          .ok ⟨outer, some (.group (settle trees none F x).2)⟩ := by
        show continueOperand trees F x t = _
        rw [continueOperand, ht]
        simp only [Lexeme.operator?, hs, if_true]
        rfl
      rw [foldlM_step_cons hstep]
      exact ih (by omega) hus _

theorem cut_closings (k n : Nat) :
    ∃ ts, Cut n ts (List.replicate k ')') ∧
      ts.map Token.lexeme = List.replicate k .closing := by
  induction k generalizing n with
  | zero => exact ⟨[], .done, rfl⟩
  | succ k ih =>
    obtain ⟨ts, hcut, hts⟩ := ih (n + 1)
    refine ⟨⟨.closing, n⟩ :: ts, Cut.token (l := .closing) trivial trivial hcut, ?_⟩
    rw [List.map_cons, hts, List.replicate_succ]

/-- What can be read can be completed to an expression. -/
theorem begins_of_run (hcut : Cut 0 ts cs)
    (hrun : ts.foldlM (Reading.step trees) Reading.start = .ok r) : Begins cs := by
  rw [begins_iff]
  -- a blank keeps what is added apart from what is there
  have complete : ∀ us ds r', Cut (0 + cs.length + 1) us ds →
      us.foldlM (Reading.step trees) r = .ok r' → (∀ n, ∃ d, r'.finish trees n = .ok d) →
      ∃ rest d, read trees (cs ++ rest) = .ok d := by
    intro us ds r' hds hus hfinish
    obtain ⟨d, hd⟩ := hfinish (cs ++ ' ' :: ds).length
    refine ⟨' ' :: ds, d, ?_⟩
    rw [read, Cut.tokens_eq (hcut.append_blank (by decide) hds), readTokens,
      foldlM_step_append hrun, hus]
    exact hd
  obtain ⟨F, operand⟩ := r
  cases operand with
  | some x =>
    -- behind an operand the open groups are closed
    obtain ⟨us, hds, hus⟩ := cut_closings (openGroups F) (0 + cs.length + 1)
    obtain ⟨r', hr', hfinish⟩ := exists_finish rfl hus x
    exact complete us _ r' hds hr' hfinish
  | none =>
    -- elsewhere an operand comes first
    obtain ⟨us, hds, hus⟩ := cut_closings (openGroups F) (0 + cs.length + 1 + 1)
    have hzero : isLiteral ['0'] = true := by decide
    have hstep : Reading.step trees ⟨F, none⟩ ⟨.numerals '0' [], 0 + cs.length + 1⟩ =
        .ok ⟨F, some (.literal ⟨['0'], hzero⟩)⟩ := by
      have hl : Literal.ofChars? ['0'] = some ⟨['0'], hzero⟩ := dif_pos hzero
      simp only [Reading.step, beginOperand, hl]
      rfl
    obtain ⟨r', hr', hfinish⟩ := exists_finish rfl hus (.literal ⟨['0'], hzero⟩)
    have hends : (Lexeme.numerals '0' []).EndsBefore
        (List.replicate (openGroups F) ')').head? := by
      cases openGroups F with
      | zero => trivial
      | succ k => exact (by decide : isNumeral ')' = false)
    have hwf : (Lexeme.numerals '0' []).WellFormed := ⟨by decide, by simp⟩
    refine complete _ _ r' (Cut.token hwf hends hds) ?_ hfinish
    rw [foldlM_step_cons hstep, hr']

/-! ### Texts that begin in the same way -/

/-- Whether a token fits depends on its first character alone. -/
theorem Reading.Fits.of_head_eq {l m : Lexeme} (h : r.Fits l) (hl : l.WellFormed)
    (hm : m.WellFormed) (heq : l.head = m.head) : r.Fits m := by
  obtain rfl | ⟨c, ds, es, rfl, rfl⟩ | ⟨hls, hms⟩ := hl.eq_or_alike hm heq
  · exact h
  · obtain ⟨F, operand⟩ := r
    cases operand with
    | none => exact Or.inl ⟨c, es, rfl⟩
    | some x =>
      obtain ⟨op, hop⟩ | ⟨hcl, -⟩ := h
      · cases op <;> simp [Operator.lexemes] at hop
      · cases hcl
  · obtain ⟨F, operand⟩ := r
    simp only [List.mem_cons, List.not_mem_nil, or_false] at hls hms
    cases operand with
    | none =>
      obtain ⟨_, _, rfl⟩ | rfl | ⟨s, rfl⟩ := h
      · simp at hls
      · simp at hls
      · cases s <;> simp [Sign.lexeme] at hls
    | some x =>
      rcases hms with rfl | rfl
      · exact Or.inl ⟨.times, by decide⟩
      · exact Or.inl ⟨.power, by decide⟩

/-- A token that does not fit ends the reading. -/
theorem Advance.exists_error {ls : List Lexeme} (h : Advance r ls t) (hfits : ¬ r.Fits t.lexeme) :
    ∃ e, Reading.step trees r t = .error e := by
  cases h with
  | completes h | opens h | malformed h => exact absurd h hfits
  | refused _ hstep => exact ⟨_, hstep⟩

theorem read_eq_error {e : Stuck Derivation} (hcut : Cut 0 (pre ++ t :: post) cs)
    (hrun : pre.foldlM (Reading.step trees) Reading.start = .ok r)
    (hstep : Reading.step trees r t = .error e) : read trees cs = .error e := by
  rw [read, Cut.tokens_eq hcut, readTokens, foldlM_step_append hrun, List.foldlM_cons, hstep]
  rfl

theorem not_begins (h : ∀ rest, ∃ e, read trees (cs ++ rest) = .error e) : ¬ Begins cs := by
  rw [begins_iff]
  rintro ⟨rest, d, hd⟩
  obtain ⟨e, he⟩ := h rest
  rw [he] at hd
  cases hd

/-- Reading fails at a token or at the end. -/
theorem readTokens_eq_error {e : Stuck Derivation} {n : Nat}
    (h : readTokens trees ts n = .error e) :
    (∃ pre t post r, ts = pre ++ t :: post ∧
      pre.foldlM (Reading.step trees) Reading.start = .ok r ∧
      Reading.step trees r t = .error e) ∨
    ∃ r, ts.foldlM (Reading.step trees) Reading.start = .ok r ∧
      Reading.finish trees r n = .error e := by
  -- the induction is on the tokens, from any reading
  suffices hall : ∀ r₀,
      ts.foldlM (Reading.step trees) r₀ >>= (fun r => r.finish trees n) = .error e →
      (∃ pre t post r, ts = pre ++ t :: post ∧ pre.foldlM (Reading.step trees) r₀ = .ok r ∧
        Reading.step trees r t = .error e) ∨
      ∃ r, ts.foldlM (Reading.step trees) r₀ = .ok r ∧ Reading.finish trees r n = .error e from
    hall Reading.start h
  clear h
  induction ts with
  | nil => exact fun r₀ h => Or.inr ⟨r₀, rfl, h⟩
  | cons t ts ih =>
    intro r₀ h
    cases hs : Reading.step trees r₀ t with
    | error e' =>
      rw [List.foldlM_cons, hs] at h
      cases h
      exact Or.inl ⟨[], t, ts, r₀, rfl, rfl, hs⟩
    | ok r₁ =>
      rw [foldlM_step_cons hs] at h
      obtain ⟨pre, u, post, r, rfl, hrun, hstep⟩ | ⟨r, hrun, hfinish⟩ := ih r₁ h
      · exact Or.inl ⟨t :: pre, u, post, r, rfl, by rw [foldlM_step_cons hs, hrun], hstep⟩
      · exact Or.inr ⟨r, by rw [foldlM_step_cons hs, hrun], hfinish⟩

/-- Behind what has been read, no expression goes on with the first character of a token that does
not fit. -/
theorem not_begins_of_not_fits {before after : List Char}
    (sp : Cut.SplitAt 0 pre t post cs before after)
    (hrun : pre.foldlM (Reading.step trees) Reading.start = .ok r)
    (hfits : ¬ r.Fits t.lexeme) : ¬ Begins (before ++ [t.lexeme.head]) := by
  refine not_begins fun rest => ?_
  obtain ⟨ts, hts⟩ := Cut.exists_cut t.start (t.lexeme.head :: rest)
  obtain ⟨l, us, rfl, hl, hhead⟩ := hts.exists_head sp.wellFormed.isBlank_head
  have hcut := sp.resume _ _ rfl hts
  have hnot : ¬ r.Fits l := fun h => hfits (h.of_head_eq hl sp.wellFormed hhead)
  -- the reader has come to the same reading, and what it finds there does not fit either
  obtain ⟨e, he⟩ := ((Reading.Spells.start.run hrun).advance ⟨l, t.start⟩).exists_error hnot
  refine ⟨e, ?_⟩
  rw [List.append_assoc, List.singleton_append]
  exact read_eq_error hcut hrun he

/-! ### Too much nesting -/

theorem push_eq_error {frame : Frame Derivation} {stop : Nat} {e : Stuck Derivation}
    (h : push frame F stop = .error e) (hdepth : depth F ≤ nestingLimit) :
    e.fault = ⟨.tooDeep, stop⟩ ∧ frame.nests = true ∧ depth F = nestingLimit := by
  rw [push] at h
  split_ifs at h with hd
  cases h
  rw [Bool.and_eq_true, decide_eq_true_eq] at hd
  obtain ⟨hn, hlt⟩ := hd
  have hcons : depth (frame :: F) = depth F + 1 := List.countP_cons_of_pos hn
  exact ⟨rfl, hn, by omega⟩

/-- What opens a level is a parenthesis, a sign or a power. -/
theorem Opens.mem_of_nests {frame : Frame Derivation} {ls : List Lexeme} {l : Lexeme}
    (h : Opens (frame :: F) (ls ++ [l])) (hn : frame.nests = true) :
    l ∈ [.opening, .plus, .minus, .caret, .doubleStar] := by
  generalize hms : ls ++ [l] = ms at h
  cases h with
  | group =>
    obtain rfl := List.singleton_inj.mp (List.append_inj_right' hms rfl)
    decide
  | @sign _ _ s =>
    obtain rfl := List.singleton_inj.mp (List.append_inj_right' hms rfl)
    cases s <;> decide
  | @left _ _ _ _ op l' _ _ _ _ hl =>
    rw [← List.append_assoc] at hms
    obtain rfl := List.singleton_inj.mp (List.append_inj_right' hms rfl)
    obtain rfl : op = .power := by simpa [Frame.nests] using hn
    simp only [Operator.lexemes, List.mem_cons, List.not_mem_nil, or_false] at hl
    rcases hl with rfl | rfl <;> decide

theorem Lexeme.endsBefore_of_mem {l : Lexeme}
    (h : l ∈ [opening, plus, minus, caret, doubleStar]) (next : Option Char) :
    l.EndsBefore next := by
  simp only [List.mem_cons, List.not_mem_nil, or_false] at h
  rcases h with rfl | rfl | rfl | rfl | rfl <;> trivial

/-- A token after which nothing may follow fails in every text that begins up to its end. -/
theorem not_begins_of_error {before after : List Char} {e : Stuck Derivation}
    (sp : Cut.SplitAt 0 pre t post cs before after)
    (hrun : pre.foldlM (Reading.step trees) Reading.start = .ok r)
    (hstep : Reading.step trees r t = .error e)
    (hends : ∀ next, t.lexeme.EndsBefore next) : ¬ Begins (before ++ t.lexeme.chars) := by
  refine not_begins fun rest => ⟨e, ?_⟩
  obtain ⟨us, hus⟩ := Cut.exists_cut t.stop rest
  rw [List.append_assoc]
  exact read_eq_error (sp.resume _ _ (t.lexeme.head?_chars_append rest)
    (Cut.token sp.wellFormed (hends _) hus)) hrun hstep

/-! ### The place of a fault -/

variable {before after : List Char}

theorem runsAt_of_split {c : Char} {ds : List Char} (sp : Cut.SplitAt 0 pre t post cs before after)
    (ht : t.lexeme = .numerals c ds) : RunsAt cs t.start (c :: ds) := by
  obtain ⟨htext, hstart, hwf, hends, -, -, -, hmax⟩ := sp
  rw [ht] at htext hwf hends hmax
  rw [Nat.zero_add] at hstart
  refine ⟨before, after, htext, hstart.symm, List.cons_ne_nil c ds, ?_, ?_, ?_⟩
  · intro d hd
    rcases List.mem_cons.mp hd with rfl | hd
    · exact hwf.1
    · exact hwf.2 d hd
  · intro d hd
    -- a digit before it would belong to the run
    by_contra hn
    have hc : isNumeral c = false := hmax d hd (Bool.not_eq_false _ ▸ hn)
    rw [hwf.1] at hc
    cases hc
  · intro d hd
    rw [hd] at hends
    exact hends

/-- A run of digits and points that is no literal has no digit or too many points. -/
theorem any_isDigit_or_count_of_not_isLiteral {run : List Char}
    (hrun : ∀ c ∈ run, isNumeral c = true) (h : isLiteral run = false) :
    run.any Char.isDigit = false ∨ 1 < run.count '.' := by
  have hall : run.all isNumeral = true := List.all_eq_true.mpr hrun
  rw [isLiteral, hall, Bool.true_and, Bool.and_eq_false_iff, decide_eq_false_iff_not] at h
  exact h.imp_right fun h => Nat.lt_of_not_le h

/-- The fault of a token. -/
theorem foundIn_of_step {e : Stuck Derivation} (hcut : Cut 0 (pre ++ t :: post) cs)
    (hrun : pre.foldlM (Reading.step trees) Reading.start = .ok r)
    (hstep : Reading.step trees r t = .error e) : e.fault.FoundIn cs := by
  obtain ⟨before, after, sp⟩ := hcut.exists_split
  obtain ⟨tail, hchars⟩ := t.lexeme.exists_chars_eq
  have hstart : t.start = before.length := by rw [sp.start, Nat.zero_add]
  have hbefore : Begins before := begins_of_run sp.cutBefore hrun
  have htake : cs.take t.start = before := by rw [sp.text, hstart, List.take_left]
  have hle : t.start ≤ cs.length := by
    rw [hstart, sp.text, List.length_append]
    omega
  cases (Reading.Spells.start.run hrun).advance t with
  | completes _ hs =>
    rw [hs] at hstep
    cases hstep
  | @opens frame F _ hs hopens hdepth =>
    rw [hs] at hstep
    obtain ⟨hfault, hn, hfull⟩ := push_eq_error hstep hdepth
    have hmem := hopens.mem_of_nests hn
    have hstop : cs.take t.stop = before ++ t.lexeme.chars := by
      rw [Token.stop, hstart, sp.text, ← List.append_assoc, ← List.length_append, List.take_left]
    have hlen : t.stop ≤ cs.length := by
      rw [Token.stop, hstart, sp.text, List.length_append, List.length_append]
      omega
    rw [hfault]
    refine ⟨hlen, ?_⟩
    show OpensTooMuch (cs.take t.stop) ∧ ¬ Begins (cs.take t.stop)
    rw [hstop]
    exact ⟨⟨before, pre, t.lexeme, frame, F, rfl, sp.cutBefore, hmem, hopens, hn, hfull⟩,
      not_begins_of_error sp hrun (hs.trans hstep) (Lexeme.endsBefore_of_mem hmem)⟩
  | @malformed c ds _ _ hs hlexeme hliteral hfault =>
    rw [hs] at hstep
    cases hstep
    have hruns := runsAt_of_split sp hlexeme
    obtain ⟨_, _, _, _, _, hall, _⟩ := id hruns
    rw [hfault]
    exact ⟨hle, hruns, any_isDigit_or_count_of_not_isLiteral hall hliteral, htake ▸ hbefore⟩
  | refused hfits hs hfault =>
    rw [hs] at hstep
    cases hstep
    -- the token begins with the character at its place
    have hget : cs[t.start]? = some t.lexeme.head := by
      rw [sp.text, hstart, List.getElem?_append_right (Nat.le_refl _), Nat.sub_self, hchars]
      rfl
    have hsucc : cs.take (t.start + 1) = before ++ [t.lexeme.head] := by
      rw [List.take_add_one, htake, hget, Option.toList_some]
    have hplace : cs[t.start]? = some t.lexeme.head ∧ Begins (cs.take t.start) ∧
        ¬ Begins (cs.take (t.start + 1)) :=
      ⟨hget, htake ▸ hbefore, hsucc ▸ not_begins_of_not_fits sp hrun hfits⟩
    rcases hfault with hfault | hfault
    · rw [hfault]
      exact ⟨hle, hplace⟩
    · rw [hfault]
      exact ⟨hle, hplace⟩

/-- The fault of the end. -/
theorem foundIn_of_finish {e : Stuck Derivation} (hcut : Cut 0 ts cs)
    (hrun : ts.foldlM (Reading.step trees) Reading.start = .ok r)
    (hfinish : Reading.finish trees r cs.length = .error e) : e.fault.FoundIn cs := by
  have hplace : cs.length = cs.length ∧ Begins cs := ⟨rfl, begins_of_run hcut hrun⟩
  obtain ⟨F, operand⟩ := r
  cases operand with
  | none =>
    cases hfinish
    exact ⟨Nat.le_refl _, hplace⟩
  | some x =>
    simp only [Reading.finish] at hfinish
    split at hfinish
    · cases hfinish
    · cases hfinish
      exact ⟨Nat.le_refl _, hplace⟩

/-- **A fault is reported at the first place where the text goes wrong.** -/
theorem found_of_evaluate_eq_error {s : String} {f : Fault} (h : evaluate s = .error f) :
    f.FoundIn s.toList ∧ ∀ c, f.offending = some c → s.toList[f.position]? = some c := by
  have hfound : f.FoundIn s.toList := by
    rw [evaluate_eq] at h
    cases hr : read trees s.toList with
    | ok d =>
      rw [hr] at h
      cases h
    | error e =>
      rw [hr] at h
      cases h
      have hcut := Cut.cut_tokens s.toList
      rw [read] at hr
      obtain ⟨pre, t, post, r, hts, hrun, hstep⟩ | ⟨r, hrun, hfinish⟩ := readTokens_eq_error hr
      · rw [hts] at hcut
        exact foundIn_of_step hcut hrun hstep
      · exact foundIn_of_finish hcut hrun hfinish
  refine ⟨hfound, fun c hc => ?_⟩
  obtain ⟨cause, n⟩ := f
  cases cause with
  | unexpected d =>
    cases hc
    exact hfound.2.1
  | unclosed found =>
    cases hc
    exact hfound.2.1
  | incomplete | tooDeep | malformed => cases hc

/-- In an open group a second literal goes wrong where it begins. -/
theorem found_second_literal :
    evaluate "2**(3 4" = .error ⟨.unclosed (some '4'), 6⟩ ∧
      Fault.FoundIn ⟨.unclosed (some '4'), 6⟩ "2**(3 4".toList ∧
      ∀ c, Fault.offending ⟨.unclosed (some '4'), 6⟩ = some c → "2**(3 4".toList[6]? = some c := by
  have h : evaluate "2**(3 4" = .error ⟨.unclosed (some '4'), 6⟩ := by decide +kernel
  exact ⟨h, found_of_evaluate_eq_error h⟩

end Reckoner.Expression
