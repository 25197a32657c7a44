import Mathlib.Data.List.Basic
import Mathlib.Tactic.SplitIfs
import Reckoner.Proofs.Expression.Lexemes
import Reckoner.Proofs.Text.Positions

/-!
# Blanks between tokens

A blank can be put into a text at every index that does not lie within a token, that is, between two
digits or points or between two stars. It moves the tokens behind it on by one place and changes no
other (`tokens_insert`). The reader looks at a place only to report a fault there, so it goes the
same way with the moved tokens and finds the same fault at the moved place (`step_moved`,
`read_insert`). An evaluation therefore has the same value and the same calculations, and a fault is
moved by one place exactly if it was found behind the blank (`work_insertIdx_blank`).
-/

namespace Reckoner.Expression

open Text

variable {n i : Nat} {b : Char} {cs before after : List Char} {ts : List Token}

/-! ### Indices within a token -/

/-- Whether the index lies between two digits or points, or between two stars. -/
def WithinRun (cs : List Char) : Nat → Prop
  | 0 => False
  | j + 1 => ∃ c ∈ cs[j]?, ∃ d ∈ cs[j + 1]?,
      (isNumeral c = true ∧ isNumeral d = true) ∨ (c = '*' ∧ d = '*')

instance (cs : List Char) : DecidablePred (WithinRun cs)
  | 0 => .isFalse id
  | j + 1 =>
    decidable_of_iff (cs[j]?.any fun c => cs[j + 1]?.any fun d =>
        (isNumeral c && isNumeral d) || (c == '*' && d == '*')) (by
      simp only [WithinRun, Option.any_eq_true, Option.mem_def, Bool.or_eq_true, Bool.and_eq_true,
        beq_iff_eq])

theorem WithinRun.append_left (h : WithinRun cs i) (ds : List Char) :
    WithinRun (ds ++ cs) (ds.length + i) := by
  match i, h with
  | j + 1, ⟨c, hc, d, hd, hrun⟩ =>
    have hshift : ∀ k, (ds ++ cs)[ds.length + k]? = cs[k]? := fun k => by
      rw [List.getElem?_append_right (Nat.le_add_right _ _), Nat.add_sub_cancel_left]
    exact ⟨c, (hshift j).symm ▸ hc, d, (hshift (j + 1)).symm ▸ hd, hrun⟩

/-- Only runs of digits and points and the two stars of a power have an index within them. -/
theorem Lexeme.WellFormed.withinRun {l : Lexeme} (hl : l.WellFormed) (hpos : 0 < i)
    (hi : i < l.chars.length) (cs : List Char) : WithinRun (l.chars ++ cs) i := by
  obtain ⟨j, rfl⟩ : ∃ j, i = j + 1 := ⟨i - 1, by omega⟩
  have hj : j < l.chars.length := by omega
  refine ⟨l.chars[j], ?_, l.chars[j + 1], ?_, ?_⟩
  · rw [List.getElem?_append_left hj, List.getElem?_eq_getElem hj, Option.mem_some_iff]
  · rw [List.getElem?_append_left hi, List.getElem?_eq_getElem hi, Option.mem_some_iff]
  · cases l with
    | numerals c ds =>
      have hnumeral : ∀ d ∈ c :: ds, isNumeral d = true := List.forall_mem_cons.mpr hl
      exact Or.inl ⟨hnumeral _ (List.getElem_mem hj), hnumeral _ (List.getElem_mem hi)⟩
    | doubleStar =>
      have hstar : ∀ d ∈ ['*', '*'], d = '*' := by simp
      exact Or.inr ⟨hstar _ (List.getElem_mem hj), hstar _ (List.getElem_mem hi)⟩
    | _ => exact absurd hi (by simp [chars])

namespace Cut

/-- A cut falls apart at every index that is not within a token. -/
theorem exists_append (h : Cut n ts (before ++ after))
    (hi : ¬ WithinRun (before ++ after) before.length) :
    ∃ us vs, ts = us ++ vs ∧ Cut n us before ∧ Cut (n + before.length) vs after := by
  generalize hcs : before ++ after = cs at h hi
  induction h generalizing before with
  | done =>
    obtain ⟨rfl, rfl⟩ := List.append_eq_nil_iff.mp hcs
    exact ⟨[], [], rfl, done, done⟩
  | @blank n ts c cs hc h ih =>
    rcases List.append_eq_cons_iff.mp hcs with ⟨rfl, rfl⟩ | ⟨before, rfl, rfl⟩
    · exact ⟨[], ts, rfl, done, blank hc h⟩
    · have hi' : ¬ WithinRun (before ++ after) before.length := by
        intro hrun
        have hrun' := hrun.append_left [c]
        rw [List.length_singleton, Nat.add_comm] at hrun'
        exact hi hrun'
      obtain ⟨us, vs, rfl, hus, hvs⟩ := ih rfl hi'
      refine ⟨us, vs, rfl, blank hc hus, ?_⟩
      rwa [List.length_cons, Nat.add_comm before.length, ← Nat.add_assoc]
  | @token n l ts cs hl hends h ih =>
    rcases before.eq_nil_or_concat' with rfl | hne
    · rw [List.nil_append] at hcs
      exact ⟨[], ⟨l, n⟩ :: ts, rfl, done, hcs ▸ token hl hends h⟩
    · have hpos : 0 < before.length := by
        obtain ⟨ds, d, rfl⟩ := hne
        simp
      have hlen : l.chars.length ≤ before.length :=
        Nat.le_of_not_lt fun hlt => hi (hl.withinRun hpos hlt cs)
      -- the index lies behind the token
      obtain ⟨rest, rfl⟩ : l.chars <+: before :=
        List.prefix_of_prefix_length_le ⟨cs, rfl⟩ ⟨after, hcs⟩ hlen
      rw [List.append_assoc, List.append_cancel_left_eq] at hcs
      subst hcs
      have hi' : ¬ WithinRun (rest ++ after) rest.length := by
        rw [List.length_append] at hi
        exact fun hrun => hi (hrun.append_left l.chars)
      obtain ⟨us, vs, rfl, hus, hvs⟩ := ih rfl hi'
      refine ⟨⟨l, n⟩ :: us, vs, rfl, token hl ?_ hus, ?_⟩
      · cases hrest : rest.head? with
        | none => exact l.endsBefore_none
        | some c => rwa [List.head?_append, hrest, Option.some_or] at hends
      · rwa [List.length_append, ← Nat.add_assoc]

/-- Every token of a text lies in it. -/
theorem start_le_and_stop_le (h : Cut n ts cs) {t : Token} (ht : t ∈ ts) :
    n ≤ t.start ∧ t.stop ≤ n + cs.length := by
  induction h with
  | done => cases ht
  | blank _ _ ih =>
    obtain ⟨hstart, hstop⟩ := ih ht
    rw [List.length_cons]
    omega
  | @token n l ts cs _ _ _ ih =>
    rw [List.length_append]
    rcases List.mem_cons.mp ht with rfl | ht
    · exact ⟨Nat.le_refl n, by rw [Token.stop]; dsimp only; omega⟩
    · obtain ⟨hstart, hstop⟩ := ih ht
      omega

end Cut

/-! ### Tokens and faults behind the blank -/

theorem Token.start_lt_stop (t : Token) : t.start < t.stop :=
  Nat.lt_add_of_pos_right (List.length_pos_iff.mpr t.lexeme.chars_ne_nil)

/-- The token in a text that has one more character at index `i`. -/
def Token.moved (i : Nat) (t : Token) : Token := if i ≤ t.start then t.shift 1 else t

@[simp]
theorem Token.lexeme_moved (i : Nat) (t : Token) : (t.moved i).lexeme = t.lexeme := by
  rw [moved]
  split_ifs <;> rfl

theorem Token.start_moved (i : Nat) (t : Token) :
    (t.moved i).start = if i ≤ t.start then t.start + 1 else t.start := by
  rw [moved]
  split_ifs <;> rfl

/-- A token that does not lie around the index is moved as a whole. -/
theorem Token.stop_moved {t : Token} (h : t.stop ≤ i ∨ i ≤ t.start) :
    (t.moved i).stop = if i < t.stop then t.stop + 1 else t.stop := by
  have hlt := t.start_lt_stop
  have hiff : i ≤ t.start ↔ i < t.stop := by omega
  rw [stop, lexeme_moved, start_moved]
  simp only [hiff]
  split_ifs
  · rw [stop, Nat.add_right_comm]
  · rfl

/-- The fault in a text that has one more character at index `i`. Too much nesting is found behind
the token that opens it, everything else at the place that the fault names. -/
def Fault.moved (i : Nat) (f : Fault) : Fault :=
  match f.cause with
  | .tooDeep => ⟨f.cause, if i < f.position then f.position + 1 else f.position⟩
  | _ => ⟨f.cause, if i ≤ f.position then f.position + 1 else f.position⟩

/-- The same for a fault with what had been read. -/
def Stuck.moved {α : Type} (i : Nat) (e : Stuck α) : Stuck α := ⟨e.fault.moved i, e.reading⟩

/-- A blank that is not put within a token moves the tokens behind it. -/
theorem tokens_insert (hb : isBlank b = true)
    (hi : ¬ WithinRun (before ++ after) before.length) :
    tokens (before ++ b :: after) = (tokens (before ++ after)).map (Token.moved before.length) ∧
      ∀ t ∈ tokens (before ++ after), t.stop ≤ before.length ∨ before.length ≤ t.start := by
  obtain ⟨us, vs, hts, hus, hvs⟩ := (Cut.cut_tokens (before ++ after)).exists_append hi
  have hfront : ∀ t ∈ us, t.stop ≤ before.length := fun t ht => by
    have hstop := (hus.start_le_and_stop_le ht).2
    omega
  have hbehind : ∀ t ∈ vs, before.length ≤ t.start := fun t ht => by
    have hstart := (hvs.start_le_and_stop_le ht).1
    omega
  constructor
  · rw [Cut.tokens_eq (hus.append_blank hb (hvs.shift 1)), hts, List.map_append]
    congr 1
    · rw [List.map_congr_left (g := id) fun t ht => ?_, List.map_id]
      have hlt := t.start_lt_stop
      have hstop := hfront t ht
      exact if_neg (by omega)
    · exact List.map_congr_left fun t ht => (if_pos (hbehind t ht)).symm
  · intro t ht
    rw [hts, List.mem_append] at ht
    exact ht.imp (hfront t) (hbehind t)

/-! ### Reading -/

section Reading

variable {α : Type} (I : Interpretation α) {t : Token}

theorem push_moved (h : t.stop ≤ i ∨ i ≤ t.start) (frame : Frame α) (F : List (Frame α)) :
    push frame F (t.moved i).stop = (push frame F t.stop).mapError (Stuck.moved i) := by
  rw [push, push, Token.stop_moved h]
  by_cases hdeep : (frame.nests && decide (nestingLimit < depth (frame :: F))) = true
  · rw [if_pos hdeep, if_pos hdeep]
    rfl
  · rw [if_neg hdeep, if_neg hdeep]
    rfl

theorem refuse_moved (F : List (Frame α)) (x : α) (c : Char) (t : Token) :
    refuse F x c (t.moved i).start = (refuse F x c t.start).moved i := by
  rw [Token.start_moved]
  cases F with
  | nil => rfl
  | cons frame F => cases frame <;> rfl

theorem beginOperand_moved (h : t.stop ≤ i ∨ i ≤ t.start) (F : List (Frame α)) :
    beginOperand I F (t.moved i) = (beginOperand I F t).mapError (Stuck.moved i) := by
  rw [beginOperand, beginOperand, Token.lexeme_moved]
  cases hl : t.lexeme with
  | numerals c cs =>
    dsimp only
    cases Literal.ofChars? (c :: cs) with
    | none => rw [Token.start_moved]; rfl
    | some l => rfl
  | opening => exact push_moved h .group F
  | plus => exact push_moved h (.sign .plus) F
  | minus => exact push_moved h (.sign .minus) F
  | _ => dsimp only [Lexeme.sign?]; rw [Token.start_moved]; rfl

theorem continueOperand_moved (h : t.stop ≤ i ∨ i ≤ t.start) (F : List (Frame α)) (x : α) :
    continueOperand I F x (t.moved i) = (continueOperand I F x t).mapError (Stuck.moved i) := by
  rw [continueOperand, continueOperand, Token.lexeme_moved]
  cases t.lexeme.operator? with
  | some op => exact push_moved h _ _
  | none =>
    dsimp only
    split_ifs
    · cases (settle I none F x).1 with
      | nil => exact congrArg Except.error (refuse_moved _ _ _ _)
      | cons frame outer =>
        cases frame with
        | group => rfl
        | left | sign => exact congrArg Except.error (refuse_moved _ _ _ _)
    · exact congrArg Except.error (refuse_moved _ _ _ _)

/-- The reader goes the same way with a moved token. -/
theorem step_moved (h : t.stop ≤ i ∨ i ≤ t.start) (r : Reading α) :
    Reading.step I r (t.moved i) = (Reading.step I r t).mapError (Stuck.moved i) := by
  obtain ⟨F, operand⟩ := r
  cases operand with
  | none => exact beginOperand_moved I h F
  | some x => exact continueOperand_moved I h F x

theorem mapError_bind {ε ε' β γ : Type} (g : ε → ε') (x : Except ε β) (f : β → Except ε γ) :
    (x >>= f).mapError g = x.mapError g >>= fun y => (f y).mapError g := by
  cases x <;> rfl

theorem foldlM_step_moved (h : ∀ t ∈ ts, t.stop ≤ i ∨ i ≤ t.start) (r : Reading α) :
    (ts.map (Token.moved i)).foldlM (Reading.step I) r =
      (ts.foldlM (Reading.step I) r).mapError (Stuck.moved i) := by
  induction ts generalizing r with
  | nil => rfl
  | cons t ts ih =>
    rw [List.forall_mem_cons] at h
    rw [List.map_cons, List.foldlM_cons, List.foldlM_cons, step_moved I h.1, mapError_bind]
    simp only [ih h.2]

theorem finish_moved (h : i ≤ n) (r : Reading α) :
    r.finish I (n + 1) = (r.finish I n).mapError (Stuck.moved i) := by
  have hend : ∀ (c : Cause) (r : Reading α), c ≠ .tooDeep →
      (⟨⟨c, n + 1⟩, r⟩ : Stuck α) = Stuck.moved i ⟨⟨c, n⟩, r⟩ := by
    intro c r hc
    have hpos : (if i ≤ n then n + 1 else n) = n + 1 := if_pos h
    cases c with
    | tooDeep => exact absurd rfl hc
    | _ => rw [Stuck.moved, Fault.moved, hpos]
  obtain ⟨F, operand⟩ := r
  cases operand with
  | none => exact congrArg Except.error (hend .incomplete _ Cause.noConfusion)
  | some x =>
    simp only [Reading.finish]
    cases (settle I none F x).1 with
    | nil => rfl
    | cons frame F => exact congrArg Except.error (hend (.unclosed none) _ Cause.noConfusion)

/-- **A blank between tokens** changes neither what is read nor what is wrong with it; a fault
behind the blank is moved by one place. -/
theorem read_insert (hb : isBlank b = true)
    (hi : ¬ WithinRun (before ++ after) before.length) :
    read I (before ++ b :: after) =
      (read I (before ++ after)).mapError (Stuck.moved before.length) := by
  obtain ⟨htokens, hside⟩ := tokens_insert hb hi
  have hlen : (before ++ b :: after).length = (before ++ after).length + 1 := by
    rw [List.length_append, List.length_cons, List.length_append, Nat.add_assoc]
  have hle : before.length ≤ (before ++ after).length := by
    rw [List.length_append]
    exact Nat.le_add_right _ _
  rw [read, read, readTokens, readTokens, htokens, hlen, foldlM_step_moved I hside, mapError_bind]
  simp only [finish_moved I hle]

end Reading

/-! ### Evaluation -/

/-- **A blank between tokens never matters.** Putting a blank into a text, but not between two
digits or points and not between two stars, keeps the value and the calculations, also those made
before a fault. The cause of a fault stays, and its place moves on by one if the blank is put at it
or in front of it; where the nesting is too deep, only if in front of it. -/
theorem work_insertIdx_blank {s : String} (hlen : i ≤ s.toList.length)
    (hi : ¬ WithinRun s.toList i) (hb : isBlank b = true) (detailed : Bool) :
    let e := work detailed s
    let e' := work detailed (String.ofList (s.toList.insertIdx i b))
    e'.steps = e.steps ∧ e'.outcome = e.outcome.mapError (Fault.moved i) := by
  obtain ⟨before, after, hcs, rfl⟩ :
      ∃ before after, s.toList = before ++ after ∧ before.length = i :=
    ⟨s.toList.take i, s.toList.drop i, (List.take_append_drop i _).symm,
      List.length_take_of_le hlen⟩
  rw [hcs] at hi
  dsimp only
  rw [hcs, insertIdx_length_append]
  cases detailed with
  | false =>
    refine ⟨rfl, ?_⟩
    show ((read values _).mapError Stuck.fault) = ((read values _).mapError Stuck.fault).mapError _
    rw [String.toList_ofList, hcs, read_insert values hb hi]
    cases read values (before ++ after) <;> rfl
  | true =>
    rw [work, work, if_pos rfl, if_pos rfl, String.toList_ofList, hcs, read_insert workings hb hi]
    cases read workings (before ++ after) <;> exact ⟨rfl, rfl⟩

/-- The second number is where the blank is put, and it was made out to be wrong there. -/
theorem work_insertIdx_blank_second_number :
    (work true "1+2 3").outcome = .error ⟨.unexpected '3', 4⟩ ∧
      (work true "1+2 \u30003").outcome = .error ⟨.unexpected '3', 5⟩ ∧
      (work true "1+2 \u30003").steps = (work true "1+2 3").steps := by
  have h : (work true "1+2 3").outcome = .error ⟨.unexpected '3', 4⟩ := by decide +kernel
  have hs : String.ofList ("1+2 3".toList.insertIdx 4 '\u3000') = "1+2 \u30003" := by decide +kernel
  obtain ⟨hsteps, houtcome⟩ := work_insertIdx_blank (s := "1+2 3") (i := 4) (b := '\u3000')
    (by decide) (by decide) (by decide) true
  rw [hs] at hsteps houtcome
  refine ⟨h, ?_, hsteps⟩
  rw [houtcome, h]
  rfl

end Reckoner.Expression
