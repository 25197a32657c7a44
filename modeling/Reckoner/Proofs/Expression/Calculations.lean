import Reckoner.Proofs.Expression.Parsing

/-!
# The calculations are the evaluation

An evaluation that lists its calculations reads the same derivation as one that does not. What it
lists are the nodes of the derivation in postorder, both operands before the operator, as far as
they calculate anything: literals, parentheses and plus signs do not
(`latestFirst_fold_workings`). Each calculation shows the values of the operands of its node and
results in the value of the node, so the last one results in the value of the expression
(`result_of_getLast?`).
-/

namespace Reckoner.Expression

namespace Derivation

/-! ### Nodes and what they show -/

/-- The nodes of a derivation, each behind its parts and the left part in front of the right one. -/
def postorder : Derivation → List Derivation
  | literal l => [literal l]
  | group d => d.postorder ++ [group d]
  | sign s d => d.postorder ++ [sign s d]
  | binary d op e => d.postorder ++ e.postorder ++ [binary d op e]

/-- The calculation that a node makes, if it makes one. -/
def calculation? : Derivation → Option Calculation
  | sign .minus d => some (.negation d.value)
  | binary d op e => some (.binary d.value op e.value)
  | _ => none

/-- What is to be shown for a node that calculates: the calculation, with the values of the operands
as full texts, and the value of the node. -/
def shown? (d : Derivation) : Option (String × Number) :=
  match d with
  | sign .minus e => some ("-" ++ e.value.text, d.value)
  | binary e op f => some (e.value.text ++ " " ++ op.symbol ++ " " ++ f.value.text, d.value)
  | _ => none

/-- The calculations of a derivation in postorder. -/
def calculations (d : Derivation) : List Calculation := d.postorder.filterMap calculation?

variable {d : Derivation} {c : Calculation}

/-- The calculation of a node results in the value of the node. -/
theorem result_of_calculation? (h : d.calculation? = some c) : c.result = d.value := by
  cases d with
  | literal | group => cases h
  | sign s d =>
    cases s with
    | plus => cases h
    | minus =>
      cases h
      rfl
  | binary =>
    cases h
    rfl

/-- The calculation of a node is shown with the value of the node. -/
theorem shown?_eq (d : Derivation) :
    d.shown? = d.calculation?.map fun c => (c.text, c.result) := by
  cases d with
  | literal | group | binary => rfl
  | sign s d => cases s <;> rfl

theorem map_calculations (d : Derivation) :
    d.calculations.map (fun c => (c.text, c.result)) = d.postorder.filterMap shown? := by
  rw [calculations, List.map_filterMap]
  exact congrArg (fun f => d.postorder.filterMap f) (funext fun e => (shown?_eq e).symm)

/-! ### Calculations of the parts -/

@[simp]
theorem calculations_literal (l : Literal) : (literal l).calculations = [] := rfl

@[simp]
theorem calculations_group (d : Derivation) : (group d).calculations = d.calculations := by
  rw [calculations, postorder, List.filterMap_append]
  exact List.append_nil _

@[simp]
theorem calculations_plus (d : Derivation) : (sign .plus d).calculations = d.calculations := by
  rw [calculations, postorder, List.filterMap_append]
  exact List.append_nil _

@[simp]
theorem calculations_minus (d : Derivation) :
    (sign .minus d).calculations = d.calculations ++ [.negation d.value] := by
  rw [calculations, postorder, List.filterMap_append]
  rfl

@[simp]
theorem calculations_binary (d : Derivation) (op : Operator) (e : Derivation) :
    (binary d op e).calculations =
      d.calculations ++ e.calculations ++ [.binary d.value op e.value] := by
  rw [calculations, postorder, List.filterMap_append, List.filterMap_append]
  rfl

/-- The last calculation results in the value: what stands around it calculates nothing. -/
theorem result_of_getLast? (h : d.calculations.getLast? = some c) : c.result = d.value := by
  induction d with
  | literal l =>
    rw [calculations_literal] at h
    cases h
  | group d ih =>
    rw [calculations_group] at h
    exact ih h
  | sign s d ih =>
    cases s with
    | plus =>
      rw [calculations_plus] at h
      exact ih h
    | minus =>
      rw [calculations_minus, List.getLast?_concat] at h
      exact result_of_calculation? h
  | binary d op e =>
    rw [calculations_binary, List.getLast?_concat] at h
    exact result_of_calculation? h

/-- A map that respects two interpretations carries the meaning in one to that in the other. -/
theorem fold_hom {α β : Type} {I : Interpretation α} {J : Interpretation β} {f : α → β}
    (h : I.Hom J f) (d : Derivation) : f (d.fold I) = d.fold J := by
  induction d with
  | literal l => exact h.map_literal l
  | group d ih => rw [fold, fold, h.map_group, ih]
  | sign s d ih => rw [fold, fold, h.map_sign, ih]
  | binary d op e ihd ihe => rw [fold, fold, h.map_apply, ihd, ihe]

theorem value_fold_workings (d : Derivation) : (d.fold workings).value = d.value :=
  fold_hom hom_workings d

/-- Working a derivation out lists its calculations. -/
theorem latestFirst_fold_workings (d : Derivation) :
    (d.fold workings).latestFirst = d.calculations.reverse := by
  induction d with
  | literal l => rfl
  | group d ih =>
    rw [calculations_group]
    exact ih
  | sign s d ih =>
    cases s with
    | plus =>
      rw [calculations_plus]
      exact ih
    | minus =>
      rw [calculations_minus, List.reverse_append, ← ih, ← value_fold_workings]
      rfl
  | binary d op e ihd ihe =>
    rw [calculations_binary, List.reverse_append, List.reverse_append, ← ihd, ← ihe,
      ← value_fold_workings, ← value_fold_workings]
    rfl

end Derivation

/-! ### Evaluations that list their calculations -/

/-- An expression that has a value has a derivation with that value. -/
theorem exists_parse {s : String} {v : Number} (h : evaluate s = .ok v) :
    ∃ p : Parse s.toList, p.tree.value = v := by
  rw [evaluate_eq] at h
  split at h
  · next d hread => exact ⟨.ofRead hread, Except.ok.inj h⟩
  · cases h

/-- The calculations that are listed are those of the derivation. -/
theorem steps_work {s : String} (p : Parse s.toList) :
    (work true s).steps = p.tree.calculations := by
  have hread : read workings s.toList = .ok (p.tree.fold workings) := by
    rw [(Derivation.hom_fold workings).read_map, p.read_eq]
    rfl
  rw [work, if_pos rfl, hread]
  show (p.tree.fold workings).latestFirst.reverse = _
  rw [Derivation.latestFirst_fold_workings, List.reverse_reverse]

/-- **The calculations are the evaluation.** Listing the calculations changes neither the value nor
the fault, and without the request there are none. If the expression has a value, then what is
listed are the nodes of its only derivation that calculate something, in postorder, each with the
values of its operands and its own value. The last one results in the value of the expression. -/
theorem work_eq_postorder (s : String) :
    (∀ detailed, (work detailed s).outcome = evaluate s) ∧ (work false s).steps = [] ∧
    ∀ v, evaluate s = .ok v → ∃ p : Parse s.toList, (∀ q : Parse s.toList, q = p) ∧
      p.tree.value = v ∧
      (work true s).steps.map (fun c => (c.text, c.result)) =
        p.tree.postorder.filterMap Derivation.shown? ∧
      ∀ c, (work true s).steps.getLast? = some c → c.result = v := by
  refine ⟨fun detailed => outcome_work detailed s, rfl, fun v hv => ?_⟩
  obtain ⟨p, rfl⟩ := exists_parse hv
  refine ⟨p, fun q => Subsingleton.elim q p, rfl, ?_, fun c hc => ?_⟩
  · rw [steps_work p, Derivation.map_calculations]
  · rw [steps_work p] at hc
    exact Derivation.result_of_getLast? hc

/-- Parentheses, a plus sign and a literal calculate nothing; the sign of the right operand comes
before the operator. -/
theorem work_eq_postorder_nested :
    evaluate "+(2--3)*4" = .ok (.ofBits 0x4034000000000000) ∧
      (work true "+(2--3)*4").steps.map Calculation.text = ["-3", "2 - -3", "5 * 4"] ∧
      ∀ c, (work true "+(2--3)*4").steps.getLast? = some c →
        c.result = .ofBits 0x4034000000000000 := by
  have hv : evaluate "+(2--3)*4" = .ok (.ofBits 0x4034000000000000) := by decide +kernel
  obtain ⟨-, -, h⟩ := work_eq_postorder "+(2--3)*4"
  obtain ⟨p, -, -, -, hlast⟩ := h _ hv
  exact ⟨hv, by decide +kernel, hlast⟩

end Reckoner.Expression
