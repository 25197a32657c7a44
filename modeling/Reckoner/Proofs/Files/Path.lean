import Mathlib.Data.List.Basic
import Mathlib.Data.List.DropRight
import Mathlib.Tactic.SplitIfs
import Reckoner.Files.Path

/-!
# The ancestors of a path

A path is made of its pieces and falls into the same pieces again (`splitSlashes_joinSlashes`). So
the ancestors of the path that a path lies in are its other ancestors (`ancestors_of_cons`): they
are reached one after the other, each from the text of the one before.
-/

namespace Reckoner.Files

variable {cs : List Char} {first name piece : Piece} {pieces reversed : List Piece}

/-! ### Pieces -/

theorem splitSlashes_eq_splitOn (cs : List Char) : splitSlashes cs = cs.splitOn '/' := by
  induction cs with
  | nil => rw [splitSlashes, List.splitOn_nil]
  | cons c cs ih =>
    rw [splitSlashes, List.splitOn_cons_eq_if_modifyHead, ih]
    simp only [beq_iff_eq]

/-- No piece contains a slash. -/
theorem slash_not_mem (h : piece ∈ splitSlashes cs) : '/' ∉ piece := by
  induction cs generalizing piece with
  | nil =>
    rw [splitSlashes, List.mem_singleton] at h
    exact h ▸ List.not_mem_nil
  | cons c cs ih =>
    rw [splitSlashes] at h
    split_ifs at h with hc
    · rcases List.mem_cons.1 h with rfl | h
      · exact List.not_mem_nil
      · exact ih h
    · -- the character goes to the first piece of the others
      cases hs : splitSlashes cs with
      | nil => exact absurd hs (splitSlashes_ne_nil cs)
      | cons p ps =>
        rw [hs] at h ih
        rcases List.mem_cons.1 h with rfl | h
        · rw [List.mem_cons, not_or]
          exact ⟨Ne.symm hc, ih List.mem_cons_self⟩
        · exact ih (List.mem_cons_of_mem _ h)

/-- Pieces that are joined fall apart again. -/
theorem splitSlashes_joinSlashes (hne : pieces ≠ []) (h : ∀ piece ∈ pieces, '/' ∉ piece) :
    splitSlashes (joinSlashes pieces) = pieces := by
  rw [splitSlashes_eq_splitOn, joinSlashes, List.splitOn_intercalate '/' h hne]

theorem splitSlashes_of_not_mem (h : '/' ∉ cs) : splitSlashes cs = [cs] := by
  rw [splitSlashes_eq_splitOn, List.splitOn_eq_singleton h]

namespace Path

/-! ### Ancestors -/

theorem ancestorsOf_dropWhile (first : Piece) (reversed : List Piece) :
    ancestorsOf first (reversed.dropWhile isVoid) = ancestorsOf first reversed := by
  induction reversed with
  | nil => rfl
  | cons piece reversed ih =>
    rw [List.dropWhile_cons, ancestorsOf]
    split_ifs with h
    · exact ih
    · rw [ancestorsOf, if_neg h]

/-- A path made of pieces falls into these pieces but for some at the end that lead nowhere. -/
theorem exists_splitSlashes_assemble (hfirst : '/' ∉ first) (h : ∀ piece ∈ reversed, '/' ∉ piece) :
    ∃ rest, splitSlashes (assemble first reversed).chars = first :: rest ∧
      rest.reverse.dropWhile isVoid = reversed.dropWhile isVoid := by
  have hrest : ∀ piece ∈ reversed.dropWhile isVoid, '/' ∉ piece :=
    fun piece hpiece => h piece ((List.dropWhile_sublist _).subset hpiece)
  have hidem := List.dropWhile_idempotent isVoid reversed
  rw [assemble]
  generalize reversed.dropWhile isVoid = rest at hrest hidem
  cases rest with
  | nil =>
    -- nothing but the first piece is left, or the root if that is empty
    by_cases hnil : first = []
    · subst hnil
      exact ⟨[[]], rfl, rfl⟩
    · refine ⟨[], ?_, rfl⟩
      simp only [if_neg hnil, chars_ofChars, splitSlashes_of_not_mem hfirst]
  | cons piece rest =>
    have hpieces : ∀ q ∈ first :: (piece :: rest).reverse, '/' ∉ q := by
      rw [List.forall_mem_cons]
      exact ⟨hfirst, fun q hq => hrest q (List.mem_reverse.1 hq)⟩
    refine ⟨(piece :: rest).reverse, ?_, ?_⟩
    · rw [chars_ofChars, splitSlashes_joinSlashes (List.cons_ne_nil _ _) hpieces]
    · rw [List.reverse_reverse, hidem]

/-- The ancestors of a path that is made of pieces. -/
theorem ancestors_assemble (hfirst : '/' ∉ first) (h : ∀ piece ∈ reversed, '/' ∉ piece) :
    (assemble first reversed).ancestors = ancestorsOf first reversed := by
  obtain ⟨rest, hsplit, hrest⟩ := exists_splitSlashes_assemble hfirst h
  rw [ancestors, hsplit, ← ancestorsOf_dropWhile first reversed, ← hrest, ancestorsOf_dropWhile]

theorem ancestors_of_ancestorsOf {q : Path} {qs : List Path} (hfirst : '/' ∉ first)
    (h : ∀ piece ∈ reversed, '/' ∉ piece) (hq : ancestorsOf first reversed = q :: qs) :
    q.ancestors = qs := by
  induction reversed with
  | nil =>
    rw [ancestorsOf] at hq
    split_ifs at hq
    cases hq
    rfl
  | cons piece reversed ih =>
    rw [List.forall_mem_cons] at h
    rw [ancestorsOf] at hq
    split_ifs at hq
    · exact ih h.2 hq
    · cases hq
      exact ancestors_assemble hfirst h.2

/-- The ancestors behind the first are the ancestors of the first. -/
theorem ancestors_of_cons {p q : Path} {qs : List Path} (h : p.ancestors = q :: qs) :
    q.ancestors = qs := by
  have hpieces : ∀ piece ∈ splitSlashes p.chars, '/' ∉ piece := fun _ hp => slash_not_mem hp
  rw [ancestors] at h
  cases hs : splitSlashes p.chars with
  | nil => exact absurd hs (splitSlashes_ne_nil p.chars)
  | cons first rest =>
    rw [hs, List.forall_mem_cons] at hpieces
    rw [hs] at h
    exact ancestors_of_ancestorsOf hpieces.1 (fun q hq => hpieces.2 q (List.mem_reverse.1 hq)) h

/-- The path that a path lies in and its ancestors are the ancestors of the path. -/
theorem ancestors_of_parent? {p q : Path} (h : p.parent? = some q) :
    p.ancestors = q :: q.ancestors := by
  rw [parent?] at h
  cases hp : p.ancestors with
  | nil =>
    rw [hp] at h
    cases h
  | cons q' qs =>
    rw [hp] at h
    cases h
    rw [ancestors_of_cons hp]

/-! ### The path that a path lies in -/

/-- A path lies in the path made of the pieces before its last name, or in the empty path if there
is nothing before its first piece. -/
theorem parent?_eq {p : Path} (hp : splitSlashes p.chars = first :: pieces) :
    p.parent? = match pieces.reverse.dropWhile isVoid with
      | [] => if first = [] then none else some (ofChars [])
      | _ :: before => some (assemble first before) := by
  rw [parent?, ancestors, hp]
  dsimp only
  rw [← ancestorsOf_dropWhile]
  cases hd : pieces.reverse.dropWhile isVoid with
  | nil =>
    rw [ancestorsOf]
    split_ifs <;> rfl
  | cons name before =>
    have hname := List.head?_dropWhile_not isVoid pieces.reverse
    rw [hd, List.head?_cons] at hname
    rw [ancestorsOf, if_neg (by simp [hname]), List.head?_cons]

end Path

end Reckoner.Files
