import Mathlib.Tactic.SplitIfs
import Reckoner.Proofs.Expression.Grammar

/-!
# The reader parses

The reader keeps what stands to the left as frames. `Opens F ls` says which tokens frames stand for:
each frame is an unfinished part of a derivation, and a part that a frame waits for may begin behind
it (`Category.BeginsBehind`). Settling frames completes the parts that end before the next operator
and changes no tokens (`Pends.settle`), so every step of the reader keeps the reading and the tokens
read so far in agreement (`Reading.Spells.step`); conversely a derivation drives the reader from any
frames behind which it may begin (`Reads.of_derives`).

Together the reader accepts what the grammar derives, and nothing else, and yields the derivation
itself (`readTokens_eq_ok_iff`). So a text has one derivation at most, and its value is what the
text evaluates to.
-/

namespace Reckoner.Expression

open Expression.Derivation (trees)

variable {c c' : Category} {d e : Derivation} {ls ms : List Lexeme} {op : Operator}

section Frames

variable {α : Type} {I : Interpretation α} {F : List (Frame α)} {x y : α}

/-! ### Where parts begin and end -/

/-- What must be complete in front of the next operator, or in front of what closes an
expression. -/
def before : Option Operator → Category
  | some op => op.leftPart
  | none => .expression

/-- What the next operator makes with its operands. -/
def around : Option Operator → Category
  | some op => op.whole
  | none => .expression

/-- Whether a part of the category may begin behind the frames: the innermost frame waits for a part
that is at least as wide. -/
def Category.BeginsBehind {α : Type} (c : Category) : List (Frame α) → Prop
  | .sign _ :: _ => c.level ≤ Category.signed.level
  | .left _ op :: _ => c.level ≤ op.rightPart.level
  | _ => True

theorem Category.BeginsBehind.mono (h : c.BeginsBehind F) (hc : c'.level ≤ c.level) :
    c'.BeginsBehind F := by
  cases F with
  | nil => trivial
  | cons frame F =>
    cases frame with
    | group => trivial
    | sign | left => exact Nat.le_trans hc h

theorem signed_le_rightPart (op : Operator) : Category.signed.level ≤ op.rightPart.level := by
  cases op <;> decide

theorem signed_lt_whole (op : Operator) : Category.signed.level < op.whole.level := by
  cases op <;> decide

/-- Every frame waits for something that may begin with a sign. -/
theorem signed_beginsBehind (F : List (Frame α)) : Category.signed.BeginsBehind F := by
  cases F with
  | nil => trivial
  | cons frame F =>
    cases frame with
    | group => trivial
    | sign => exact Nat.le_refl _
    | left _ op => exact signed_le_rightPart op

theorem signed_le_before (next : Option Operator) :
    Category.signed.level ≤ (before next).level := by
  cases next with
  | none => decide
  | some op => cases op <;> decide

/-- An operator settles exactly when what it makes is complete in front of the next one. -/
theorem settlesBefore_iff {next : Option Operator} :
    op.settlesBefore next = true ↔ op.whole.level ≤ (before next).level := by
  cases next with
  | none => cases op <;> decide
  | some next => cases op <;> cases next <;> decide

/-- An operator does not settle exactly when the next one works on its right operand. -/
theorem not_settlesBefore_iff {next : Operator} :
    op.settlesBefore (some next) = false ↔ next.whole.level ≤ op.rightPart.level := by
  cases op <;> cases next <;> decide

/-- Frames behind which the operator's part begins do not take its left operand. -/
theorem settle_of_beginsBehind (h : op.whole.BeginsBehind F) (x : α) :
    settle I (some op) F x = (F, x) := by
  cases F with
  | nil => rfl
  | cons frame F =>
    cases frame with
    | group => rfl
    | sign => exact absurd (signed_lt_whole op) (Nat.not_lt_of_le h)
    | left y op' =>
      have hs : op'.settlesBefore (some op) = false := not_settlesBefore_iff.mpr h
      rw [settle, hs, if_neg Bool.false_ne_true]

/-! ### Depth -/

@[simp]
theorem depth_nil : depth ([] : List (Frame α)) = 0 := rfl

@[simp]
theorem depth_group : depth (.group :: F) = depth F + 1 := List.countP_cons

@[simp]
theorem depth_sign (s : Sign) : depth (.sign s :: F) = depth F + 1 := List.countP_cons

@[simp]
theorem depth_left : depth (.left x op :: F) = depth F + if op = .power then 1 else 0 := by
  rw [depth, List.countP_cons, depth]
  simp only [Frame.nests, decide_eq_true_eq]

theorem push_eq_ok_iff {frame : Frame α} {stop : Nat} {r : Reading α} :
    push frame F stop = .ok r ↔
      r = ⟨frame :: F, none⟩ ∧ (frame.nests = true → depth (frame :: F) ≤ nestingLimit) := by
  rw [push]
  split_ifs with h
  · rw [Bool.and_eq_true, decide_eq_true_eq] at h
    constructor
    · intro hr
      cases hr
    · rintro ⟨-, hd⟩
      exact absurd (hd h.1) (Nat.not_le_of_lt h.2)
  · rw [Bool.and_eq_true, decide_eq_true_eq, not_and, Nat.not_lt] at h
    constructor
    · intro hr
      cases hr
      exact ⟨rfl, h⟩
    · rintro ⟨rfl, -⟩
      rfl

/-! ### Runs of the reader -/

section Runs

variable {r r' : Reading α} {t : Token} {ts us : List Token}

theorem foldlM_step_cons (h : Reading.step I r t = .ok r') :
    (t :: ts).foldlM (Reading.step I) r = ts.foldlM (Reading.step I) r' := by
  rw [List.foldlM_cons, h]
  rfl

theorem foldlM_step_append (h : ts.foldlM (Reading.step I) r = .ok r') :
    (ts ++ us).foldlM (Reading.step I) r = us.foldlM (Reading.step I) r' := by
  rw [List.foldlM_append, h]
  rfl

/-- Reading the tokens behind the frames comes down to putting one more frame on them, `stop` being
the position behind the tokens. -/
def Puts (I : Interpretation α) (F : List (Frame α)) (ts : List Token) (frame : Frame α)
    (stop : Nat) : Prop :=
  ∀ us, (ts ++ us).foldlM (Reading.step I) ⟨F, none⟩ =
    push frame F stop >>= us.foldlM (Reading.step I)

theorem puts_sign {s : Sign} (ht : t.lexeme = s.lexeme) : Puts I F [t] (.sign s) t.stop := by
  intro us
  have hstep : Reading.step I ⟨F, none⟩ t = push (.sign s) F t.stop := by
    rw [Reading.step, beginOperand, ht]
    cases s <;> rfl
  rw [List.singleton_append, List.foldlM_cons, hstep]

theorem puts_group (ht : t.lexeme = .opening) : Puts I F [t] .group t.stop := by
  intro us
  have hstep : Reading.step I ⟨F, none⟩ t = push .group F t.stop := by
    rw [Reading.step, beginOperand, ht]
  rw [List.singleton_append, List.foldlM_cons, hstep]

/-- If there is room for the frame, reading goes on behind it. -/
theorem Puts.foldlM {frame : Frame α} {stop : Nat} (h : Puts I F ts frame stop)
    (hroom : frame.nests = true → depth (frame :: F) ≤ nestingLimit) :
    (ts ++ us).foldlM (Reading.step I) ⟨F, none⟩ =
      us.foldlM (Reading.step I) ⟨frame :: F, none⟩ := by
  rw [h us, push_eq_ok_iff.mpr ⟨rfl, hroom⟩]
  rfl

end Runs

/-! ### From the derivation to the reader -/

/-- Reading the tokens behind the frames leaves an operand and frames that settle in the same way as
the operand `x` would behind the frames, wherever a part of the category may end. -/
def Reads (I : Interpretation α) (c : Category) (F : List (Frame α)) (ts : List Token) (x : α) :
    Prop :=
  ∃ F' y, ts.foldlM (Reading.step I) ⟨F, none⟩ = .ok ⟨F', some y⟩ ∧
    ∀ next, c.level ≤ (before next).level → settle I next F' y = settle I next F x

namespace Reads

variable {ts us : List Token} {t : Token}

theorem widen (h : Reads I c F ts x) (hc : c.level ≤ c'.level) : Reads I c' F ts x := by
  obtain ⟨F', y, hrun, hsettle⟩ := h
  exact ⟨F', y, hrun, fun next hn => hsettle next (Nat.le_trans hc hn)⟩

theorem literal {l : Literal} {ch : Char} {cs : List Char} (ht : t.lexeme = .numerals ch cs)
    (hl : l.chars = ch :: cs) : Reads I .atom F [t] (I.literal l) := by
  have hstep : Reading.step I ⟨F, none⟩ t = .ok ⟨F, some (I.literal l)⟩ := by
    rw [Reading.step, beginOperand, ht]
    simp only [Literal.ofChars?_eq_some_iff.mpr hl]
  refine ⟨F, I.literal l, ?_, fun _ _ => rfl⟩
  rw [foldlM_step_cons hstep]
  rfl

theorem sign {s : Sign} (ht : t.lexeme = s.lexeme)
    (hdepth : depth (.sign s :: F) ≤ nestingLimit) (h : Reads I .signed (.sign s :: F) ts x) :
    Reads I .signed F (t :: ts) (I.sign s x) := by
  obtain ⟨F', y, hrun, hsettle⟩ := h
  refine ⟨F', y, ?_, hsettle⟩
  rw [← List.singleton_append, (puts_sign ht).foldlM fun _ => hdepth, hrun]

theorem group {t' : Token} (ht : t.lexeme = .opening) (ht' : t'.lexeme = .closing)
    (hdepth : depth (.group :: F) ≤ nestingLimit) (h : Reads I .expression (.group :: F) ts x) :
    Reads I .atom F (t :: (ts ++ [t'])) (I.group x) := by
  obtain ⟨F', y, hrun, hsettle⟩ := h
  have hclose : Reading.step I ⟨F', some y⟩ t' = .ok ⟨F, some (I.group x)⟩ := by
    have hs : settle I none F' y = (.group :: F, x) := hsettle none (Nat.le_refl _)
    show continueOperand I F' y t' = _
    rw [continueOperand, ht']
    simp only [Lexeme.operator?, hs, if_true]
  refine ⟨F, I.group x, ?_, fun _ _ => rfl⟩
  rw [← List.singleton_append, (puts_group ht).foldlM fun _ => hdepth, foldlM_step_append hrun,
    foldlM_step_cons hclose]
  rfl

/-- The left operand is complete in front of the operator. -/
theorem puts_left (h : Reads I op.leftPart F ts x) (ht : t.lexeme ∈ op.lexemes)
    (hop : op.whole.BeginsBehind F) : Puts I F (ts ++ [t]) (.left x op) t.stop := by
  intro us
  obtain ⟨F', y, hrun, hsettle⟩ := h
  -- what the left operand has left open is given to it, and no more
  have hs : settle I (some op) F' y = (F, x) := by
    rw [hsettle (some op) (Nat.le_refl _), settle_of_beginsBehind hop]
  have hstep : Reading.step I ⟨F', some y⟩ t = push (.left x op) F t.stop := by
    show continueOperand I F' y t = _
    rw [continueOperand, Operator.operator?_eq_some_iff.mpr ht]
    simp only [hs]
  rw [List.append_assoc, List.singleton_append, foldlM_step_append hrun, List.foldlM_cons, hstep]

/-- An operator waits for its right operand and then takes both. -/
theorem binary (ht : t.lexeme ∈ op.lexemes) (hop : op.whole.BeginsBehind F)
    (hdepth : (Frame.left x op).nests = true → depth (.left x op :: F) ≤ nestingLimit)
    (h : Reads I op.leftPart F ts x) (h' : Reads I op.rightPart (.left x op :: F) us y) :
    Reads I op.whole F (ts ++ t :: us) (I.apply op x y) := by
  have hputs := h.puts_left ht hop
  obtain ⟨F', z, hrun, hsettle⟩ := h'
  refine ⟨F', z, ?_, fun next hn => ?_⟩
  · rw [← List.singleton_append, ← List.append_assoc, hputs.foldlM hdepth, hrun]
  · have hle : op.rightPart.level ≤ op.whole.level := by cases op <;> decide
    rw [hsettle next (Nat.le_trans hle hn), settle, if_pos (settlesBefore_iff.mpr hn)]

/-- An expression with nothing around it is what reading its tokens gives. -/
theorem readTokens_eq {n : Nat} (h : Reads I .expression [] ts x) : readTokens I ts n = .ok x := by
  obtain ⟨F', y, hrun, hsettle⟩ := h
  have hnone : settle I none F' y = ([], x) := hsettle none (Nat.le_refl _)
  have hfinish : Reading.finish I ⟨F', some y⟩ n = .ok x := by
    simp only [Reading.finish, hnone]
  rw [readTokens, show Reading.start = (⟨[], none⟩ : Reading α) from rfl, hrun]
  exact hfinish

/-- Both operands being readable, so is what the operator makes of them. -/
theorem of_binary {F : List (Frame Derivation)} {l : Lexeme} (hl : l ∈ op.lexemes)
    (ih : ∀ {F ts}, ts.map Token.lexeme = ls → op.leftPart.BeginsBehind F →
      depth F + d.nesting ≤ nestingLimit → Reads trees op.leftPart F ts d)
    (ih' : ∀ {F ts}, ts.map Token.lexeme = ms → op.rightPart.BeginsBehind F →
      depth F + e.nesting ≤ nestingLimit → Reads trees op.rightPart F ts e)
    (hts : ts.map Token.lexeme = ls ++ l :: ms) (hF : op.whole.BeginsBehind F)
    (hdepth : depth F + (Derivation.binary d op e).nesting ≤ nestingLimit) :
    Reads trees op.whole F ts (.binary d op e) := by
  obtain ⟨us, ws, rfl, hus, hws⟩ := List.map_eq_append_iff.mp hts
  obtain ⟨t, vs, rfl, rfl, hvs⟩ := List.map_eq_cons_iff.mp hws
  rw [Derivation.nesting] at hdepth
  have hle : op.leftPart.level ≤ op.whole.level := by cases op <;> decide
  have hright : depth (.left d op :: F) + e.nesting ≤ nestingLimit := by
    rw [depth_left]
    omega
  exact binary hl hF (fun _ => by omega) (ih hus (hF.mono hle) (by omega))
    (ih' hvs (Nat.le_refl _) hright)

/-- A derivation can be read behind all frames behind which it may begin and that leave room for
its nesting. -/
theorem of_derives {F : List (Frame Derivation)} (h : Derives c d ls)
    (hts : ts.map Token.lexeme = ls) (hF : c.BeginsBehind F)
    (hdepth : depth F + d.nesting ≤ nestingLimit) : Reads trees c F ts d := by
  induction h generalizing F ts with
  | literal hl =>
    obtain ⟨t, us, rfl, ht, hus⟩ := List.map_eq_cons_iff.mp hts
    obtain rfl := List.map_eq_nil_iff.mp hus
    exact literal ht hl
  | @group d ls _ ih =>
    obtain ⟨t, vs, rfl, ht, hvs⟩ := List.map_eq_cons_iff.mp hts
    obtain ⟨us, ws, rfl, hus, hws⟩ := List.map_eq_append_iff.mp hvs
    obtain ⟨t', xs, rfl, ht', hxs⟩ := List.map_eq_cons_iff.mp hws
    obtain rfl := List.map_eq_nil_iff.mp hxs
    rw [Derivation.nesting] at hdepth
    -- one level of the nesting becomes an open frame
    have hinner : depth (.group :: F) + d.nesting ≤ nestingLimit := by
      rw [depth_group]
      omega
    exact group ht ht' (by omega) (ih hus trivial hinner)
  | @sign s d ls _ ih =>
    obtain ⟨t, us, rfl, ht, hus⟩ := List.map_eq_cons_iff.mp hts
    rw [Derivation.nesting] at hdepth
    have hinner : depth (.sign s :: F) + d.nesting ≤ nestingLimit := by
      rw [depth_sign]
      omega
    exact sign ht (by omega) (ih hus (Nat.le_refl _) hinner)
  -- rules that only widen the category read nothing themselves
  | atom _ ih => exact (ih hts (hF.mono (by decide)) hdepth).widen (by decide)
  | signed _ ih => exact (ih hts (hF.mono (by decide)) hdepth).widen (by decide)
  | factor _ ih => exact (ih hts (hF.mono (by decide)) hdepth).widen (by decide)
  | term _ ih => exact (ih hts (hF.mono (by decide)) hdepth).widen (by decide)
  | power _ hl _ ih ih' => exact of_binary hl ih ih' hts hF hdepth
  | product _ hop hl _ ih ih' =>
    simp only [List.mem_cons, List.not_mem_nil, or_false] at hop
    rcases hop with rfl | rfl | rfl <;> exact of_binary hl ih ih' hts hF hdepth
  | sum _ hop hl _ ih ih' =>
    simp only [List.mem_cons, List.not_mem_nil, or_false] at hop
    rcases hop with rfl | rfl <;> exact of_binary hl ih ih' hts hF hdepth

end Reads

end Frames

/-! ### From the reader to the derivation -/

variable {F : List (Frame Derivation)}

/-- The frames are what the tokens leave open. -/
inductive Opens : List (Frame Derivation) → List Lexeme → Prop
  | nil : Opens [] []
  | group {F : List (Frame Derivation)} {ls : List Lexeme} (h : Opens F ls) :
      Opens (.group :: F) (ls ++ [.opening])
  | sign {F : List (Frame Derivation)} {ls : List Lexeme} {s : Sign} (h : Opens F ls) :
      Opens (.sign s :: F) (ls ++ [s.lexeme])
  | left {F : List (Frame Derivation)} {ls ms : List Lexeme} {d : Derivation} {op : Operator}
      {l : Lexeme} (h : Opens F ls) (hop : op.whole.BeginsBehind F)
      (hd : Derives op.leftPart d ms) (hdepth : depth F + d.nesting ≤ nestingLimit)
      (hl : l ∈ op.lexemes) : Opens (.left d op :: F) (ls ++ (ms ++ [l]))

/-- Tokens leave the frames open and end with a part of the category behind them. -/
def Pends (c : Category) (F : List (Frame Derivation)) (d : Derivation) (ls : List Lexeme) :
    Prop :=
  ∃ ls₁ ls₂, ls = ls₁ ++ ls₂ ∧ Opens F ls₁ ∧ Derives c d ls₂ ∧ depth F + d.nesting ≤ nestingLimit

namespace Pends

theorem widen (h : Pends c F d ls) (hc : c.level ≤ c'.level) : Pends c' F d ls := by
  obtain ⟨ls₁, ls₂, hls, hF, hd, hdepth⟩ := h
  exact ⟨ls₁, ls₂, hls, hF, hd.widen hc, hdepth⟩

theorem sign {s : Sign} (h : Pends .signed (.sign s :: F) d ls) :
    Pends .signed F (.sign s d) ls := by
  obtain ⟨ls₁, ls₂, rfl, hF, hd, hdepth⟩ := h
  cases hF with
  | @sign _ ls _ hF =>
    refine ⟨ls, s.lexeme :: ls₂, ?_, hF, .sign hd, ?_⟩
    · rw [List.append_assoc, List.singleton_append]
    · rw [depth_sign] at hdepth
      rw [Derivation.nesting]
      omega

theorem binary (h : Pends op.rightPart (.left d op :: F) e ls) :
    Pends op.whole F (.binary d op e) ls ∧ op.whole.BeginsBehind F := by
  obtain ⟨ls₁, ls₂, rfl, hF, he, hdepth⟩ := h
  cases hF with
  | @left _ ls ms _ _ l hF hop hd hleft hl =>
    refine ⟨⟨ls, ms ++ l :: ls₂, ?_, hF, .binary hd hl he, ?_⟩, hop⟩
    · simp only [List.append_assoc, List.singleton_append]
    · rw [depth_left] at hdepth
      rw [Derivation.nesting]
      omega

/-- Settling completes what ends in front of the next operator. -/
theorem settle (h : Pends c F d ls) (next : Option Operator) (hF : c.BeginsBehind F)
    (hn : c.level ≤ (before next).level) :
    Pends (before next) (settle trees next F d).1 (settle trees next F d).2 ls ∧
      (around next).BeginsBehind (Expression.settle trees next F d).1 := by
  induction F generalizing c d with
  | nil => exact ⟨h.widen hn, trivial⟩
  | cons frame F ih =>
    cases frame with
    | group => exact ⟨h.widen hn, trivial⟩
    -- a sign takes its operand in front of every operator
    | sign s => exact ih (h.widen hF).sign (signed_beginsBehind F) (signed_le_before next)
    | left y op =>
      by_cases hs : op.settlesBefore next = true
      · rw [Expression.settle, if_pos hs]
        obtain ⟨hb, hFop⟩ := (h.widen hF).binary
        exact ih hb hFop (settlesBefore_iff.mp hs)
      · rw [Expression.settle, if_neg hs]
        refine ⟨h.widen hn, ?_⟩
        cases next with
        | none => exact absurd rfl hs
        | some next => exact not_settlesBefore_iff.mp (Bool.not_eq_true _ ▸ hs)

theorem depth_le (h : Pends c F d ls) : depth F ≤ nestingLimit := by
  obtain ⟨-, -, -, -, -, hdepth⟩ := h
  omega

/-- The operand and the operator behind it make a frame. -/
theorem left (h : Pends op.leftPart F d ls) (hop : op.whole.BeginsBehind F) {l : Lexeme}
    (hl : l ∈ op.lexemes) : Opens (.left d op :: F) (ls ++ [l]) := by
  obtain ⟨ls₁, ls₂, rfl, hF, hd, hdepth⟩ := h
  rw [List.append_assoc]
  exact hF.left hop hd hdepth hl

/-- A closing parenthesis completes the group. -/
theorem close (h : Pends .expression (.group :: F) d ls) :
    Pends .atom F (.group d) (ls ++ [.closing]) := by
  obtain ⟨ls₁, ls₂, rfl, hF, hd, hdepth⟩ := h
  cases hF with
  | @group _ ls hF =>
    refine ⟨ls, .opening :: ls₂ ++ [.closing], ?_, hF, .group hd, ?_⟩
    · simp only [List.append_assoc, List.cons_append, List.nil_append]
    · rw [depth_group] at hdepth
      rw [Derivation.nesting]
      omega

end Pends

/-- The reading is what the tokens leave open, with an operand behind it if one has just ended. -/
def Reading.Spells (r : Reading Derivation) (ls : List Lexeme) : Prop :=
  match r.operand with
  | none => Opens r.frames ls ∧ depth r.frames ≤ nestingLimit
  | some d => Pends .atom r.frames d ls

/-- Whether an expression can go on with the token: behind an operand with an operator, or with
a closing parenthesis if a group is open; elsewhere with a run of digits and points, a sign or an
opening parenthesis. -/
def Reading.Fits (r : Reading Derivation) (l : Lexeme) : Prop :=
  match r.operand with
  | none => (∃ c cs, l = .numerals c cs) ∨ l = .opening ∨ ∃ s : Sign, l = s.lexeme
  | some d =>
    (∃ op : Operator, l ∈ op.lexemes) ∨
      (l = .closing ∧ ∃ outer, (settle trees none r.frames d).1 = .group :: outer)

/-- What one token can do to a reading of the tokens `ls`. -/
inductive Advance (r : Reading Derivation) (ls : List Lexeme) (t : Token) : Prop
  /-- It completes an operand. -/
  | completes {F : List (Frame Derivation)} {d : Derivation} (hfits : r.Fits t.lexeme)
      (hstep : Reading.step trees r t = .ok ⟨F, some d⟩) (h : Pends .atom F d (ls ++ [t.lexeme]))
  /-- It opens a frame, if there is room for it. -/
  | opens {frame : Frame Derivation} {F : List (Frame Derivation)} (hfits : r.Fits t.lexeme)
      (hstep : Reading.step trees r t = push frame F t.stop)
      (h : Opens (frame :: F) (ls ++ [t.lexeme])) (hdepth : depth F ≤ nestingLimit)
  /-- It is a run of digits and points but no literal. -/
  | malformed {c : Char} {cs : List Char} {e : Stuck Derivation} (hfits : r.Fits t.lexeme)
      (hstep : Reading.step trees r t = .error e) (hlexeme : t.lexeme = .numerals c cs)
      (hliteral : isLiteral (c :: cs) = false) (hfault : e.fault = ⟨.malformed (c :: cs), t.start⟩)
  /-- It does not fit. -/
  | refused {e : Stuck Derivation} (hfits : ¬ r.Fits t.lexeme)
      (hstep : Reading.step trees r t = .error e)
      (hfault : e.fault = ⟨.unexpected t.lexeme.head, t.start⟩ ∨
        e.fault = ⟨.unclosed (some t.lexeme.head), t.start⟩)

theorem fault_refuse {α : Type} (F : List (Frame α)) (x : α) (ch : Char) (n : Nat) :
    (refuse F x ch n).fault = ⟨.unexpected ch, n⟩ ∨
      (refuse F x ch n).fault = ⟨.unclosed (some ch), n⟩ := by
  unfold refuse
  split
  · exact Or.inr rfl
  · exact Or.inl rfl

theorem advance_begin {t : Token} (h : Opens F ls) (hdepth : depth F ≤ nestingLimit) :
    Advance ⟨F, none⟩ ls t := by
  obtain ⟨l, start⟩ := t
  cases l with
  | numerals ch cs =>
    have hfits : Reading.Fits ⟨F, none⟩ (.numerals ch cs) := Or.inl ⟨ch, cs, rfl⟩
    by_cases hl : isLiteral (ch :: cs) = true
    · have hofChars : Literal.ofChars? (ch :: cs) = some ⟨ch :: cs, hl⟩ := dif_pos hl
      refine .completes (F := F) (d := .literal ⟨ch :: cs, hl⟩) hfits ?_
        ⟨ls, [.numerals ch cs], rfl, h, .literal rfl, hdepth⟩
      simp only [Reading.step, beginOperand, hofChars]
      rfl
    · have hofChars : Literal.ofChars? (ch :: cs) = none := dif_neg hl
      refine .malformed (e := ⟨⟨.malformed (ch :: cs), start⟩, ⟨F, none⟩⟩) hfits ?_ rfl
        (Bool.not_eq_true _ ▸ hl) rfl
      simp only [Reading.step, beginOperand, hofChars]
  | opening => exact .opens (Or.inr (Or.inl rfl)) rfl h.group hdepth
  | plus => exact .opens (Or.inr (Or.inr ⟨.plus, rfl⟩)) rfl (h.sign (s := .plus)) hdepth
  | minus => exact .opens (Or.inr (Or.inr ⟨.minus, rfl⟩)) rfl (h.sign (s := .minus)) hdepth
  | _ =>
    refine .refused ?_ rfl (Or.inl rfl)
    rintro (⟨_, _, h⟩ | h | ⟨s, h⟩)
    · cases h
    · cases h
    · cases s <;> cases h

theorem advance_continue {t : Token} (h : Pends .atom F d ls) : Advance ⟨F, some d⟩ ls t := by
  cases hop : t.lexeme.operator? with
  | some op =>
    have hstep : Reading.step trees ⟨F, some d⟩ t =
        push (.left (settle trees (some op) F d).2 op) (settle trees (some op) F d).1 t.stop := by
      show continueOperand trees F d t = _
      rw [continueOperand, hop]
    -- what the operator works on is complete, and a frame with it is opened
    have hl := Operator.operator?_eq_some_iff.mp hop
    obtain ⟨hsettled, hbehind⟩ := h.settle (some op)
      ((signed_beginsBehind F).mono (by decide))
      (Nat.le_trans (by decide) (signed_le_before (some op)))
    exact .opens (Or.inl ⟨op, hl⟩) hstep (hsettled.left hbehind hl) hsettled.depth_le
  | none =>
    obtain ⟨hsettled, -⟩ := h.settle none ((signed_beginsBehind F).mono (by decide))
      (by decide)
    by_cases hfits : Reading.Fits ⟨F, some d⟩ t.lexeme
    · obtain ⟨op, hl⟩ | ⟨hcl, outer, hF⟩ := id hfits
      · rw [Operator.operator?_eq_some_iff.mpr hl] at hop
        cases hop
      · have hF : (settle trees none F d).1 = .group :: outer := hF
        refine .completes (F := outer) (d := .group (settle trees none F d).2) hfits ?_ ?_
        · show continueOperand trees F d t = _
          simp only [continueOperand, hop, if_pos hcl, hF]
          rfl
        · rw [hF] at hsettled
          rw [hcl]
          exact hsettled.close
    · -- what is no operator is taken only if it closes the innermost group
      refine .refused (e := refuse (settle trees none F d).1 (settle trees none F d).2
        t.lexeme.head t.start) hfits ?_ (fault_refuse _ _ _ _)
      show continueOperand trees F d t = _
      simp only [continueOperand, hop]
      split_ifs with hcl
      · split
        · next outer hF => exact absurd (Or.inr ⟨hcl, outer, hF⟩) hfits
        · rfl
      · rfl

namespace Reading.Spells

variable {r r' : Reading Derivation} {t : Token} {ts : List Token}

theorem start : Reading.start.Spells [] := ⟨.nil, Nat.zero_le _⟩

theorem advance (h : r.Spells ls) (t : Token) : Advance r ls t := by
  obtain ⟨F, operand⟩ := r
  cases operand with
  | none => exact advance_begin h.1 h.2
  | some d => exact advance_continue h

/-- A step that succeeds reads its token. -/
theorem step (h : r.Spells ls) (hstep : Reading.step trees r t = .ok r') :
    r'.Spells (ls ++ [t.lexeme]) := by
  cases h.advance t with
  | completes _ hs hp =>
    rw [hs] at hstep
    cases hstep
    exact hp
  | @opens frame F _ hs hopens hdepth =>
    rw [hs, push_eq_ok_iff] at hstep
    obtain ⟨rfl, hnests⟩ := hstep
    refine ⟨hopens, ?_⟩
    -- a frame that does not nest leaves the depth as it was
    by_cases hn : frame.nests = true
    · exact hnests hn
    · have hsame : depth (frame :: F) = depth F + 0 := by
        rw [depth, List.countP_cons_of_neg hn]
        rfl
      exact hsame ▸ hdepth
  | malformed _ hs | refused _ hs =>
    rw [hs] at hstep
    cases hstep

/-- So does a run. -/
theorem run (h : r.Spells ls) (hrun : ts.foldlM (Reading.step trees) r = .ok r') :
    r'.Spells (ls ++ ts.map Token.lexeme) := by
  induction ts generalizing r ls with
  | nil =>
    cases hrun
    rw [List.map_nil, List.append_nil]
    exact h
  | cons t ts ih =>
    cases hs : Reading.step trees r t with
    | error e =>
      rw [List.foldlM_cons, hs] at hrun
      cases hrun
    | ok r₁ =>
      rw [foldlM_step_cons hs] at hrun
      have hall := ih (h.step hs) hrun
      rwa [List.append_assoc, List.singleton_append, ← List.map_cons] at hall

/-- What a reading ends with is an expression. -/
theorem finish {n : Nat} (h : r.Spells ls) (hf : r.finish trees n = .ok d) :
    Derives .expression d ls ∧ d.nesting ≤ nestingLimit := by
  obtain ⟨F, operand⟩ := r
  cases operand with
  | none => cases hf
  | some x =>
    have hatom : Pends .atom F x ls := h
    obtain ⟨hsettled, -⟩ := hatom.settle none
      ((signed_beginsBehind F).mono (by decide)) (by decide)
    simp only [Reading.finish] at hf
    cases hF : (settle trees none F x).1 with
    | cons frame F' =>
      rw [hF] at hf
      cases hf
    | nil =>
      rw [hF] at hf hsettled
      cases hf
      -- nothing is left open, so all that was read belongs to the expression
      obtain ⟨ls₁, ls₂, rfl, hnil, hd, hdepth⟩ := hsettled
      cases hnil
      rw [depth_nil] at hdepth
      exact ⟨hd, by omega⟩

end Reading.Spells

/-! ### The reader and the grammar -/

/-- **The reader accepts exactly what the grammar derives, and finds the derivation.** -/
theorem readTokens_eq_ok_iff {ts : List Token} {n : Nat} :
    readTokens trees ts n = .ok d ↔
      Derives .expression d (ts.map Token.lexeme) ∧ d.nesting ≤ nestingLimit := by
  constructor
  · intro h
    rw [readTokens] at h
    cases hr : ts.foldlM (Reading.step trees) Reading.start with
    | error e =>
      rw [hr] at h
      cases h
    | ok r =>
      rw [hr] at h
      exact (Reading.Spells.start.run hr).finish h
  · rintro ⟨hd, hnest⟩
    have hreads : Reads trees .expression [] ts d :=
      .of_derives hd rfl trivial (by rwa [depth_nil, Nat.zero_add])
    exact hreads.readTokens_eq

namespace Parse

variable {cs : List Char}

/-- A parse is what the reader finds. -/
theorem read_eq (p : Parse cs) : read trees cs = .ok p.tree := by
  rw [read, Cut.tokens_eq p.cut]
  exact readTokens_eq_ok_iff.mpr ⟨p.derives, p.nesting_le⟩

/-- What the reader finds is a parse. -/
def ofRead (h : read trees cs = .ok d) : Parse cs where
  tokens := Expression.tokens cs
  tree := d
  cut := Cut.cut_tokens cs
  derives := (readTokens_eq_ok_iff.mp h).1
  nesting_le := (readTokens_eq_ok_iff.mp h).2

instance : Subsingleton (Parse cs) where
  allEq p q := by
    -- both parses are what the scanner and the reader find
    have htokens : p.tokens = q.tokens := (Cut.tokens_eq p.cut).symm.trans (Cut.tokens_eq q.cut)
    have htree : p.tree = q.tree := Except.ok.inj (p.read_eq.symm.trans q.read_eq)
    cases p
    cases q
    cases htokens
    cases htree
    rfl

end Parse

/-- Evaluating is reading a derivation and taking its value. -/
theorem evaluate_eq (s : String) :
    evaluate s = match read trees s.toList with
      | .ok d => .ok d.value
      | .error e => .error e.fault := by
  rw [evaluate, (Derivation.hom_fold values).read_map]
  cases read trees s.toList <;> rfl

/-- **Evaluating is parsing.** A text has one parse at most, it is accepted exactly when it has
one, and its value is the value of the derivation. -/
theorem evaluate_eq_ok_iff_parse (s : String) (v : Number) :
    (evaluate s = .ok v ↔ ∃ p : Parse s.toList, p.tree.value = v) ∧
      Subsingleton (Parse s.toList) := by
  refine ⟨?_, inferInstance⟩
  constructor
  · intro h
    cases hr : read trees s.toList with
    | error e =>
      rw [evaluate_eq, hr] at h
      cases h
    | ok d =>
      rw [evaluate_eq, hr] at h
      exact ⟨.ofRead hr, Except.ok.inj h⟩
  · rintro ⟨p, rfl⟩
    rw [evaluate_eq, p.read_eq]

end Reckoner.Expression
