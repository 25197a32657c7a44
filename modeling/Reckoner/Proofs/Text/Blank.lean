import Mathlib.Data.List.DropRight
import Reckoner.Text.Blank

/-!
# Trimming

Blanks at either end of a text do not count for `trim` (`trim_blank_append`, `trim_append_blank`),
and what is left has none (`isBlank_of_trim_eq`, `isBlank_of_getLast?_trim`). A text has nothing
left exactly when all of it is blank.
-/

namespace Reckoner.Text

/-- Nothing but blanks. -/
def AllBlank (cs : List Char) : Prop := ∀ c ∈ cs, isBlank c = true

namespace AllBlank

variable {cs ds : List Char}

theorem nil : AllBlank [] := by
  intro c hc
  cases hc

theorem append (hcs : AllBlank cs) (hds : AllBlank ds) : AllBlank (cs ++ ds) := by
  intro c hc
  rw [List.mem_append] at hc
  exact hc.elim (hcs c) (hds c)

theorem reverse (hcs : AllBlank cs) : AllBlank cs.reverse := by
  intro c hc
  rw [List.mem_reverse] at hc
  exact hcs c hc

end AllBlank

variable {c : Char} {bs cs ds : List Char}

theorem trimEnd_append_blank (cs : List Char) (hbs : AllBlank bs) :
    trimEnd (cs ++ bs) = trimEnd cs := by
  rw [trimEnd, List.reverse_append, List.dropWhile_append_of_pos hbs.reverse, trimEnd]

/-- Blanks before a text do not count. -/
theorem trim_blank_append (hbs : AllBlank bs) (cs : List Char) : trim (bs ++ cs) = trim cs := by
  rw [trim, List.dropWhile_append_of_pos hbs, trim]

/-- A text has nothing left exactly when all of it is blank. -/
theorem trim_eq_nil_iff : trim cs = [] ↔ AllBlank cs := by
  constructor
  · intro h
    have hrest : AllBlank (cs.dropWhile isBlank) := by
      have h' : (cs.dropWhile isBlank).rdropWhile isBlank = [] := h
      rwa [List.rdropWhile_eq_nil_iff] at h'
    rw [← List.takeWhile_append_dropWhile (p := isBlank) (l := cs)]
    exact AllBlank.append (fun c hc => List.mem_takeWhile_imp hc) hrest
  · intro h
    rw [trim, List.dropWhile_eq_nil_iff.2 h]
    rfl

/-- Blanks behind a text do not count. -/
theorem trim_append_blank (cs : List Char) (hbs : AllBlank bs) : trim (cs ++ bs) = trim cs := by
  by_cases h : AllBlank cs
  · rw [trim_eq_nil_iff.2 h, trim_eq_nil_iff.2 (h.append hbs)]
  · have hrest : cs.dropWhile isBlank ≠ [] := by
      intro hnil
      exact h (List.dropWhile_eq_nil_iff.1 hnil)
    rw [trim, List.dropWhile_append, if_neg (by rwa [List.isEmpty_iff]),
      trimEnd_append_blank _ hbs, trim]

/-- A text is what is left of it between blanks. -/
theorem exists_eq_append_trim (cs : List Char) :
    ∃ as bs, AllBlank as ∧ AllBlank bs ∧ cs = as ++ (trim cs ++ bs) := by
  refine ⟨cs.takeWhile isBlank, (cs.dropWhile isBlank).rtakeWhile isBlank, ?_, ?_, ?_⟩
  · exact fun c hc => List.mem_takeWhile_imp hc
  · exact fun c hc => List.mem_rtakeWhile_imp hc
  · have h := List.rdropWhile_append_rtakeWhile (p := isBlank) (l := cs.dropWhile isBlank)
    rw [trim, trimEnd]
    rw [List.rdropWhile] at h
    rw [h, List.takeWhile_append_dropWhile]

theorem trim_isInfix (cs : List Char) : trim cs <:+: cs := by
  obtain ⟨as, bs, -, -, h⟩ := exists_eq_append_trim cs
  exact ⟨as, bs, by rw [List.append_assoc, ← h]⟩

@[simp]
theorem trim_trim (cs : List Char) : trim (trim cs) = trim cs := by
  obtain ⟨as, bs, has, hbs, h⟩ := exists_eq_append_trim cs
  calc trim (trim cs)
      = trim (as ++ (trim cs ++ bs)) := by rw [trim_blank_append has, trim_append_blank _ hbs]
    _ = trim cs := by rw [← h]

/-- What is left does not begin with a blank. -/
theorem isBlank_of_trim_eq (h : trim cs = c :: ds) : isBlank c = false := by
  by_contra hc
  have hb : AllBlank [c] := by
    intro d hd
    rw [List.mem_singleton.mp hd]
    exact Bool.not_eq_false _ ▸ hc
  have htrim : trim (c :: ds) = trim ds := trim_blank_append hb ds
  have hlen : (trim ds).length ≤ ds.length := (trim_isInfix ds).length_le
  rw [← htrim, ← h, trim_trim, h, List.length_cons] at hlen
  omega

/-- Nor does it end with one. -/
theorem isBlank_of_getLast?_trim (h : (trim cs).getLast? = some c) : isBlank c = false := by
  have hlast := List.head?_dropWhile_not isBlank (cs.dropWhile isBlank).reverse
  rw [trim, trimEnd, List.getLast?_reverse] at h
  rwa [h] at hlast

/-- A text is left as it is if its last character is not one that is dropped. -/
theorem rdropWhile_of_getLast? {p : Char → Bool} (h : ∀ c ∈ cs.getLast?, p c = false) :
    cs.rdropWhile p = cs := by
  rw [List.rdropWhile_eq_self_iff]
  intro hne hp
  rw [h _ (List.getLast?_eq_some_getLast hne)] at hp
  cases hp

/-- A text without blanks at its ends is left as it is. -/
theorem trim_of_not_blank (hfirst : ∀ c ∈ cs.head?, isBlank c = false)
    (hlast : ∀ c ∈ cs.getLast?, isBlank c = false) : trim cs = cs := by
  have hdrop : cs.dropWhile isBlank = cs := by
    cases cs with
    | nil => rfl
    | cons c cs => rw [List.dropWhile_cons, hfirst c rfl, if_neg Bool.false_ne_true]
  rw [trim, hdrop, trimEnd]
  exact rdropWhile_of_getLast? hlast

end Reckoner.Text
