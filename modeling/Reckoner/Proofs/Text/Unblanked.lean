import Reckoner.Proofs.Text.Blank

/-!
# Texts without their blanks

What is left of a text when all its blanks are dropped. Blanks around the text make no difference to
it (`unblanked_trim`), and a text without blanks around it begins as it does without any
(`head?_unblanked_trim`).
-/

namespace Reckoner.Text

/-- The text without its blanks. -/
def unblanked (cs : List Char) : List Char := cs.filter (!isBlank ·)

variable {c : Char} {cs ds : List Char}

theorem unblanked_append (cs ds : List Char) :
    unblanked (cs ++ ds) = unblanked cs ++ unblanked ds :=
  List.filter_append cs ds

theorem unblanked_cons (hc : isBlank c = false) (cs : List Char) :
    unblanked (c :: cs) = c :: unblanked cs := by
  rw [unblanked, List.filter_cons_of_pos (by rw [hc]; rfl), unblanked]

theorem unblanked_blank (hc : isBlank c = true) (cs : List Char) :
    unblanked (c :: cs) = unblanked cs := by
  rw [unblanked, List.filter_cons_of_neg (by rw [hc]; decide), unblanked]

theorem unblanked_of_not_blank (h : ∀ c ∈ cs, isBlank c = false) : unblanked cs = cs := by
  refine List.filter_eq_self.mpr fun c hc => ?_
  rw [h c hc]
  rfl

theorem isBlank_of_mem_unblanked (hc : c ∈ unblanked cs) : isBlank c = false := by
  have h := (List.mem_filter.mp hc).2
  rwa [Bool.not_eq_true'] at h

theorem unblanked_eq_nil_iff : unblanked cs = [] ↔ AllBlank cs := by
  rw [unblanked, List.filter_eq_nil_iff]
  refine forall₂_congr fun c _ => ?_
  rw [Bool.not_eq_true', Bool.not_eq_false]

theorem unblanked_trim (cs : List Char) : unblanked (trim cs) = unblanked cs := by
  obtain ⟨as, bs, has, hbs, hcs⟩ := exists_eq_append_trim cs
  rw [hcs, unblanked_append, unblanked_append, unblanked_eq_nil_iff.mpr has,
    unblanked_eq_nil_iff.mpr hbs, List.append_nil, List.nil_append, ← hcs]

/-- A text without blanks around it begins as it does without any. -/
theorem head?_unblanked_trim (cs : List Char) : (unblanked (trim cs)).head? = (trim cs).head? := by
  cases h : trim cs with
  | nil => rfl
  | cons c ds =>
    rw [unblanked_cons (isBlank_of_trim_eq h)]
    rfl

/-- A text without blanks around it that has one other character is that character. -/
theorem eq_singleton_of_unblanked (hcs : trim cs = cs) (h : unblanked cs = [c]) : cs = [c] := by
  cases cs with
  | nil => cases h
  | cons d ds =>
    have hd : isBlank d = false := isBlank_of_trim_eq hcs
    rw [unblanked_cons hd, List.cons.injEq] at h
    obtain ⟨rfl, hds⟩ := h
    have htrim : trim ([d] ++ ds) = trim [d] := trim_append_blank [d] (unblanked_eq_nil_iff.mp hds)
    calc d :: ds = trim (d :: ds) := hcs.symm
      _ = trim [d] := htrim
      _ = [d] := by simp [trim, trimEnd, hd]

end Reckoner.Text
