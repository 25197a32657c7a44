import Mathlib.Data.List.Infix
import Mathlib.Tactic.SplitIfs
import Reckoner.Text.Lines

/-!
# Lines and what they are made of

Every text is a run of ended lines, each a text without line feeds and a line feed behind it, and
one more such text at the end (`exists_eq_flatMap`). Its lines are the ended ones, each without one
carriage return at its end, and what stands at the end unless that is empty
(`lines_flatMap_append`).

So lines that are written with line feeds behind them read back unchanged exactly when none contains
a line feed or ends in a carriage return (`lines_flatMap_eq_iff`), and a text has a line that ends
in a carriage return exactly when two of them stand before a line feed or one at its end
(`exists_mem_lines_iff`).
-/

namespace Reckoner.Text

variable {cs l : List Char} {ls : List (List Char)}

/-! ### Segments -/

section Segments

variable {α : Type} {sep : α} {xs : List α}

/-- Induction along the separators. -/
@[elab_as_elim]
theorem cut_induction {motive : List α → Prop} (sep : α) (xs : List α)
    (last : ∀ xs, sep ∉ xs → motive xs)
    (ended : ∀ xs ys, sep ∉ xs → motive ys → motive (xs ++ sep :: ys)) : motive xs := by
  suffices h : ∀ pre, sep ∉ pre → motive (pre ++ xs) from h [] List.not_mem_nil
  induction xs with
  | nil =>
    intro pre hpre
    rw [List.append_nil]
    exact last pre hpre
  | cons x xs ih =>
    intro pre hpre
    by_cases hx : x = sep
    · subst hx
      exact ended pre xs hpre (ih [] List.not_mem_nil)
    · rw [List.append_cons]
      refine ih (pre ++ [x]) ?_
      rw [List.mem_append, List.mem_singleton, not_or]
      exact ⟨hpre, Ne.symm hx⟩

theorem getLast?_append_cons_self_iff {ys : List α} :
    (xs ++ sep :: ys).getLast? = some sep ↔ ys = [] ∨ ys.getLast? = some sep := by
  cases ys <;> simp

variable [BEq α] [LawfulBEq α]

/-- A separator behind items of which none is one ends a segment. -/
theorem segments_append (h : sep ∉ xs) (ys : List α) :
    segments sep (xs ++ sep :: ys) = ⟨xs, true⟩ :: segments sep ys := by
  induction xs with
  | nil => rw [List.nil_append, segments, if_pos (beq_self_eq_true sep)]
  | cons x xs ih =>
    rw [List.mem_cons, not_or] at h
    have hx : ¬ (x == sep) = true := by
      rw [beq_iff_eq]
      exact Ne.symm h.1
    rw [List.cons_append, segments, if_neg hx, ih h.2]
    rfl

/-- Items of which none is a separator are one unended segment. -/
theorem segments_of_not_mem (h : sep ∉ xs) :
    segments sep xs = if xs = [] then [] else [⟨xs, false⟩] := by
  induction xs with
  | nil => rfl
  | cons x xs ih =>
    rw [List.mem_cons, not_or] at h
    have hx : ¬ (x == sep) = true := by
      rw [beq_iff_eq]
      exact Ne.symm h.1
    rw [segments, if_neg hx, ih h.2, if_neg (List.cons_ne_nil x xs)]
    by_cases hxs : xs = []
    · rw [if_pos hxs, hxs]
    · rw [if_neg hxs]
      rfl

theorem segments_eq_nil_iff : segments sep xs = [] ↔ xs = [] := by
  induction xs using cut_induction sep with
  | last xs hxs =>
    rw [segments_of_not_mem hxs]
    split_ifs with h <;> simp [h]
  | ended xs ys hxs _ =>
    rw [segments_append hxs]
    simp

end Segments

/-! ### Carriage returns -/

theorem dropFinalCr_append (cs : List Char) : dropFinalCr (cs ++ ['\r']) = cs := by
  rw [dropFinalCr, if_pos List.getLast?_concat, List.dropLast_concat]

theorem dropFinalCr_eq_self_iff : dropFinalCr cs = cs ↔ cs.getLast? ≠ some '\r' := by
  constructor
  · intro h hcr
    obtain ⟨ds, rfl⟩ := List.getLast?_eq_some_iff.1 hcr
    rw [dropFinalCr_append, List.self_eq_append_right] at h
    exact List.cons_ne_nil _ _ h
  · intro h
    rw [dropFinalCr, if_neg h]

theorem map_dropFinalCr_eq_self_iff :
    ls.map dropFinalCr = ls ↔ ∀ k ∈ ls, k.getLast? ≠ some '\r' := by
  have h := List.map_inj_left (l := ls) (f := dropFinalCr) (g := id)
  rw [List.map_id] at h
  exact h.trans (forall₂_congr fun k _ => dropFinalCr_eq_self_iff)

theorem not_mem_dropFinalCr {c : Char} (h : c ∉ cs) : c ∉ dropFinalCr cs := by
  rw [dropFinalCr]
  split_ifs
  · exact fun hc => h (List.mem_of_mem_dropLast hc)
  · exact h

theorem mem_dropFinalCr {c : Char} (hc : c ∈ cs) (hreturn : c ≠ '\r') : c ∈ dropFinalCr cs := by
  rw [dropFinalCr]
  split_ifs with hlast
  · obtain ⟨ds, rfl⟩ := List.getLast?_eq_some_iff.1 hlast
    rw [List.dropLast_concat]
    exact (List.mem_append.1 hc).resolve_right fun h => hreturn (List.mem_singleton.1 h)
  · exact hc

/-- A carriage return is left at the end exactly if there were two. -/
theorem getLast?_dropFinalCr_iff :
    (dropFinalCr cs).getLast? = some '\r' ↔ ['\r', '\r'] <:+ cs := by
  by_cases h : cs.getLast? = some '\r'
  · obtain ⟨ds, rfl⟩ := List.getLast?_eq_some_iff.1 h
    rw [dropFinalCr_append, List.getLast?_eq_some_iff]
    constructor
    · rintro ⟨es, rfl⟩
      exact ⟨es, (List.append_assoc es ['\r'] ['\r']).symm⟩
    · rintro ⟨es, hes⟩
      refine ⟨es, (List.append_left_inj ['\r']).1 ?_⟩
      rw [← hes, List.append_assoc]
      rfl
  · rw [dropFinalCr_eq_self_iff.2 h]
    refine iff_of_false h ?_
    rintro ⟨es, rfl⟩
    exact h (by simp)

/-! ### Lines -/

theorem lines_append (h : '\n' ∉ l) (cs : List Char) :
    lines (l ++ '\n' :: cs) = dropFinalCr l :: lines cs := by
  rw [lines, segments_append h, List.map_cons, ← lines]
  rfl

theorem lines_of_not_mem (h : '\n' ∉ cs) : lines cs = if cs = [] then [] else [cs] := by
  rw [lines, segments_of_not_mem h]
  split_ifs <;> rfl

/-- Every text is a run of ended lines and something without a line feed. -/
theorem exists_eq_flatMap (cs : List Char) : ∃ (ls : List (List Char)) (l : List Char),
    (∀ k ∈ ls, '\n' ∉ k) ∧ '\n' ∉ l ∧ cs = ls.flatMap (· ++ ['\n']) ++ l := by
  induction cs using cut_induction '\n' with
  | last l hl => exact ⟨[], l, by simp, hl, rfl⟩
  | ended k cs hk ih =>
    obtain ⟨ls, l, hls, hl, rfl⟩ := ih
    refine ⟨k :: ls, l, List.forall_mem_cons.2 ⟨hk, hls⟩, hl, ?_⟩
    rw [List.flatMap_cons, List.append_assoc, List.append_assoc, List.singleton_append]

/-- The lines of a text that is given by its ended lines and what stands behind them. -/
theorem lines_flatMap_append (hls : ∀ k ∈ ls, '\n' ∉ k) (hl : '\n' ∉ l) :
    lines (ls.flatMap (· ++ ['\n']) ++ l) = ls.map dropFinalCr ++ if l = [] then [] else [l] := by
  induction ls with
  | nil => exact lines_of_not_mem hl
  | cons k ls ih =>
    rw [List.forall_mem_cons] at hls
    rw [List.flatMap_cons, List.append_assoc, List.append_assoc, List.singleton_append,
      lines_append hls.1, ih hls.2]
    rfl

theorem lines_flatMap (hls : ∀ k ∈ ls, '\n' ∉ k) :
    lines (ls.flatMap (· ++ ['\n'])) = ls.map dropFinalCr := by
  have h := lines_flatMap_append hls (l := []) List.not_mem_nil
  rwa [List.append_nil, if_pos rfl, List.append_nil] at h

/-- No line contains a line feed. -/
theorem not_mem_of_mem_lines (h : l ∈ lines cs) : '\n' ∉ l := by
  obtain ⟨ls, k, hls, hk, rfl⟩ := exists_eq_flatMap cs
  rw [lines_flatMap_append hls hk, List.mem_append, List.mem_map] at h
  rcases h with ⟨k', hk', rfl⟩ | h
  · exact not_mem_dropFinalCr (hls k' hk')
  · split_ifs at h with hnil
    · cases h
    · rw [List.mem_singleton] at h
      exact h ▸ hk

/-- No other character of a text gets lost when it is cut into lines. -/
theorem exists_mem_lines_of_mem {c : Char} (hc : c ∈ cs) (hfeed : c ≠ '\n') (hreturn : c ≠ '\r') :
    ∃ l ∈ lines cs, c ∈ l := by
  induction cs using cut_induction '\n' with
  | last l hl =>
    rw [lines_of_not_mem hl, if_neg (List.ne_nil_of_mem hc)]
    exact ⟨l, List.mem_singleton_self l, hc⟩
  | ended l cs hl ih =>
    rw [lines_append hl]
    rw [List.mem_append, List.mem_cons] at hc
    obtain hl' | rfl | hcs := hc
    · exact ⟨dropFinalCr l, List.mem_cons_self, mem_dropFinalCr hl' hreturn⟩
    · exact absurd rfl hfeed
    · obtain ⟨l', hl', hc⟩ := ih hcs
      exact ⟨l', List.mem_cons_of_mem _ hl', hc⟩

/-- **Lines that are written read back** exactly when they can be told apart: none contains a line
feed, and none ends in a carriage return, which would be taken for a part of the line ending. -/
theorem lines_flatMap_eq_iff :
    lines (ls.flatMap (· ++ ['\n'])) = ls ↔ ∀ k ∈ ls, '\n' ∉ k ∧ k.getLast? ≠ some '\r' := by
  constructor
  · intro h k hk
    have hls : ∀ k ∈ ls, '\n' ∉ k := by
      intro k hk
      rw [← h] at hk
      exact not_mem_of_mem_lines hk
    rw [lines_flatMap hls, map_dropFinalCr_eq_self_iff] at h
    exact ⟨hls k hk, h k hk⟩
  · intro h
    rw [lines_flatMap fun k hk => (h k hk).1, map_dropFinalCr_eq_self_iff]
    exact fun k hk => (h k hk).2

/-! ### Lines that end in a carriage return -/

theorem infix_append_lineFeed_iff (h : '\n' ∉ l) :
    ['\r', '\r', '\n'] <:+: l ++ '\n' :: cs ↔ ['\r', '\r'] <:+ l ∨ ['\r', '\r', '\n'] <:+: cs := by
  induction l with
  | nil => simp [List.infix_cons_iff]
  | cons c l ih =>
    rw [List.mem_cons, not_or] at h
    rw [List.cons_append, List.infix_cons_iff, ih h.2, List.suffix_cons_iff, or_assoc]
    -- the pattern ends with the first line feed, which stands behind the line
    have hfirst : ['\r', '\r', '\n'] <+: c :: (l ++ '\n' :: cs) ↔ ['\r', '\r'] = c :: l := by
      rcases l with _ | ⟨d, _ | ⟨e, l⟩⟩
      · simp
      · simp
      · simp only [List.mem_cons, not_or] at h
        simp [h.2.2.1]
    rw [hfirst]

theorem getLast?_append_lineFeed_iff :
    (l ++ '\n' :: cs).getLast? = some '\r' ↔ cs.getLast? = some '\r' := by
  rw [List.getLast?_append, List.getLast?_cons]
  cases cs.getLast? <;> simp

/-- A text has a line that ends in a carriage return exactly when two carriage returns stand in
front of a line feed, or one at the end of the text. -/
theorem exists_mem_lines_iff : (∃ l ∈ lines cs, l.getLast? = some '\r') ↔
    ['\r', '\r', '\n'] <:+: cs ∨ cs.getLast? = some '\r' := by
  obtain ⟨ls, l, hls, hl, rfl⟩ := exists_eq_flatMap cs
  induction ls with
  | nil =>
    have hinfix : ¬ ['\r', '\r', '\n'] <:+: l := fun h => hl (h.subset (by simp))
    rw [List.flatMap_nil, List.nil_append, lines_of_not_mem hl, or_iff_right hinfix]
    split_ifs with hnil
    · rw [hnil]
      simp
    · simp
  | cons k ls ih =>
    rw [List.forall_mem_cons] at hls
    rw [List.flatMap_cons, List.append_assoc, List.append_assoc, List.singleton_append,
      lines_append hls.1, List.exists_mem_cons_iff, ih hls.2, getLast?_dropFinalCr_iff,
      infix_append_lineFeed_iff hls.1, getLast?_append_lineFeed_iff, or_assoc]

end Reckoner.Text
