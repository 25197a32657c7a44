import Mathlib.Tactic.SplitIfs
import Reckoner.Expression.Evaluation

/-!
# Changing what operands are

A map of operands that respects two interpretations carries every reading in the first one to the
reading in the second: the reader looks at operators and tokens only, never at operands
(`Interpretation.Hom.read_map`). So one reading, as a tree, settles all others.

The values of an evaluation that lists its calculations are those of one that does not, and so are
its faults (`outcome_work`).
-/

namespace Reckoner.Expression

variable {α β γ δ : Type}

/-! ### Mapping operands -/

/-- A frame with its operand mapped. -/
def Frame.map (f : α → β) : Frame α → Frame β
  | left x op => left (f x) op
  | sign s => sign s
  | group => group

/-- A reading with all operands mapped. -/
def Reading.map (f : α → β) (r : Reading α) : Reading β :=
  ⟨r.frames.map (Frame.map f), r.operand.map f⟩

/-- A fault, and what had been read with all operands mapped. -/
def Stuck.map (f : α → β) (e : Stuck α) : Stuck β := ⟨e.fault, e.reading.map f⟩

/-- A result of reading with all operands mapped; `g` maps what was read. -/
def mapResult (f : α → β) (g : γ → δ) : Except (Stuck α) γ → Except (Stuck β) δ
  | .ok x => .ok (g x)
  | .error e => .error (e.map f)

theorem mapResult_bind {f : α → β} {g : γ → δ} {γ' δ' : Type} {g' : γ' → δ'}
    {k : γ → Except (Stuck α) γ'} {k' : δ → Except (Stuck β) δ'}
    (hk : ∀ x, k' (g x) = mapResult f g' (k x)) (x : Except (Stuck α) γ) :
    (mapResult f g x >>= k') = mapResult f g' (x >>= k) := by
  cases x with
  | ok x => exact hk x
  | error e => rfl

@[simp]
theorem nests_map (f : α → β) (frame : Frame α) : (frame.map f).nests = frame.nests := by
  cases frame <;> rfl

@[simp]
theorem depth_map (f : α → β) (frames : List (Frame α)) :
    depth (frames.map (Frame.map f)) = depth frames := by
  rw [depth, depth, List.countP_map]
  exact congrArg (fun p => List.countP p frames) (funext fun frame => nests_map f frame)

/-! ### Maps that respect interpretations -/

/-- A map of operands that respects what literals, parentheses, signs and operators mean. -/
structure Interpretation.Hom (I : Interpretation α) (J : Interpretation β) (f : α → β) : Prop where
  map_literal : ∀ l, f (I.literal l) = J.literal l
  map_group : ∀ x, f (I.group x) = J.group (f x)
  map_sign : ∀ s x, f (I.sign s x) = J.sign s (f x)
  map_apply : ∀ op x y, f (I.apply op x y) = J.apply op (f x) (f y)

namespace Interpretation.Hom

variable {I : Interpretation α} {J : Interpretation β} {f : α → β}

theorem settle_map (h : I.Hom J f) (next : Option Operator) (frames : List (Frame α)) (x : α) :
    settle J next (frames.map (Frame.map f)) (f x) =
      ((settle I next frames x).1.map (Frame.map f), f (settle I next frames x).2) := by
  induction frames generalizing x with
  | nil => rfl
  | cons frame frames ih =>
    cases frame with
    | left y op =>
      rw [List.map_cons, Frame.map, settle, settle]
      split_ifs
      · rw [← h.map_apply, ih]
      · rfl
    | sign s =>
      rw [List.map_cons, Frame.map, settle, settle, ← h.map_sign, ih]
    | group => rfl

theorem push_map (f : α → β) (frame : Frame α) (frames : List (Frame α)) (stop : Nat) :
    push (frame.map f) (frames.map (Frame.map f)) stop =
      mapResult f (Reading.map f) (push frame frames stop) := by
  rw [push, push, ← List.map_cons, depth_map, nests_map]
  split_ifs <;> rfl

theorem beginOperand_map (h : I.Hom J f) (frames : List (Frame α)) (t : Token) :
    beginOperand J (frames.map (Frame.map f)) t =
      mapResult f (Reading.map f) (beginOperand I frames t) := by
  obtain ⟨l, start⟩ := t
  cases l with
  | numerals c cs =>
    simp only [beginOperand]
    cases Literal.ofChars? (c :: cs) with
    | none => rfl
    | some l => exact congrArg (fun y => Except.ok (Reading.mk _ (some y))) (h.map_literal l).symm
  | opening => exact push_map f .group frames _
  | plus => exact push_map f (.sign .plus) frames _
  | minus => exact push_map f (.sign .minus) frames _
  | _ => rfl

theorem refuse_map (f : α → β) (frames : List (Frame α)) (x : α) (found : Char) (n : Nat) :
    refuse (frames.map (Frame.map f)) (f x) found n = (refuse frames x found n).map f := by
  cases frames with
  | nil => rfl
  | cons frame frames => cases frame <;> rfl

theorem continueOperand_map (h : I.Hom J f) (frames : List (Frame α)) (x : α) (t : Token) :
    continueOperand J (frames.map (Frame.map f)) (f x) t =
      mapResult f (Reading.map f) (continueOperand I frames x t) := by
  rw [continueOperand, continueOperand]
  cases t.lexeme.operator? with
  | some op =>
    simp only [h.settle_map]
    exact push_map f (.left _ op) _ _
  | none =>
    simp only [h.settle_map]
    split_ifs
    · cases (settle I none frames x).1 with
      | nil => rfl
      | cons frame outer =>
        cases frame with
        | group =>
          exact congrArg (fun y => Except.ok (Reading.mk _ (some y))) (h.map_group _).symm
        | left => rfl
        | sign => rfl
    · exact congrArg Except.error (refuse_map f _ _ _ _)

theorem step_map (h : I.Hom J f) (r : Reading α) (t : Token) :
    Reading.step J (r.map f) t = mapResult f (Reading.map f) (Reading.step I r t) := by
  obtain ⟨frames, operand⟩ := r
  cases operand with
  | none => exact h.beginOperand_map frames t
  | some x => exact h.continueOperand_map frames x t

theorem foldlM_step_map (h : I.Hom J f) (ts : List Token) (r : Reading α) :
    ts.foldlM (Reading.step J) (r.map f) =
      mapResult f (Reading.map f) (ts.foldlM (Reading.step I) r) := by
  induction ts generalizing r with
  | nil => rfl
  | cons t ts ih =>
    rw [List.foldlM_cons, List.foldlM_cons, h.step_map, mapResult_bind ih]

theorem finish_map (h : I.Hom J f) (r : Reading α) (n : Nat) :
    Reading.finish J (r.map f) n = mapResult f f (Reading.finish I r n) := by
  obtain ⟨frames, operand⟩ := r
  cases operand with
  | none => rfl
  | some x =>
    simp only [Reading.finish, Reading.map, Option.map_some, h.settle_map]
    cases (settle I none frames x).1 <;> rfl

/-- **Transport.** A map that respects the interpretations maps what is read, and leaves every
fault as it is. -/
theorem read_map (h : I.Hom J f) (cs : List Char) :
    read J cs = mapResult f f (read I cs) := by
  rw [read, read, readTokens, readTokens]
  have hts := h.foldlM_step_map (tokens cs) Reading.start
  rw [show Reading.map f Reading.start = Reading.start from rfl] at hts
  rw [hts]
  exact mapResult_bind (fun r => h.finish_map r cs.length) _

end Interpretation.Hom

/-! ### Calculations beside values -/

/-- Forgetting the calculations leaves the value. -/
theorem hom_workings : workings.Hom values Worked.value where
  map_literal _ := rfl
  map_group _ := rfl
  map_sign s _ := by cases s <;> rfl
  map_apply _ _ _ := rfl

/-- Whether calculations are listed makes no difference to the outcome. -/
theorem outcome_work (detailed : Bool) (s : String) : (work detailed s).outcome = evaluate s := by
  cases detailed with
  | false => rfl
  | true =>
    rw [work, if_pos rfl, evaluate, hom_workings.read_map]
    cases read workings s.toList <;> rfl

end Reckoner.Expression
