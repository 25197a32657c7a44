import Mathlib.Data.List.Basic
import Mathlib.Tactic.SplitIfs
import Reckoner.Proofs.Text.Blank

/-!
# Words joined by single spaces

Joining the words of a text again drops the blanks at its ends and puts one space in the place of
all others. Read from left to right: a blank is dropped, and a run of other characters is kept and
gets a space behind it exactly if blanks and more words follow (`unwords_words_append`).
-/

namespace Reckoner.Text

variable {c : Char} {cs ds : List Char}

theorem words_blank (hc : isBlank c = true) (cs : List Char) : words (c :: cs) = words cs := by
  rw [words, if_pos hc]

theorem words_cons (hc : isBlank c = false) (cs : List Char) : words (c :: cs) =
    if startsWord cs then (words cs).modifyHead (c :: ·) else [c] :: words cs := by
  rw [words, hc, if_neg Bool.false_ne_true]

/-- A text that begins with a word has one. -/
theorem exists_words_eq (h : startsWord cs = true) :
    ∃ w ws, words cs = w :: ws ∧ w.head? = cs.head? := by
  induction cs with
  | nil => cases h
  | cons c cs ih =>
    have hc : isBlank c = false := by simpa [startsWord] using h
    rw [words_cons hc]
    split_ifs with hcs
    · obtain ⟨w, ws, hw, -⟩ := ih hcs
      exact ⟨c :: w, ws, by rw [hw, List.modifyHead_cons], rfl⟩
    · exact ⟨[c], words cs, rfl, rfl⟩

/-- What joining the words makes of a text that follows other characters. -/
def joined (cs : List Char) : List Char :=
  if startsWord cs ∨ words cs = [] then unwords (words cs) else ' ' :: unwords (words cs)

theorem unwords_words_cons (hc : isBlank c = false) (cs : List Char) :
    unwords (words (c :: cs)) = c :: joined cs := by
  rw [words_cons hc, joined]
  by_cases hcs : startsWord cs = true
  · obtain ⟨w, ws, hw, -⟩ := exists_words_eq hcs
    rw [if_pos hcs, if_pos (Or.inl hcs), hw, List.modifyHead_cons, unwords, unwords]
    cases ws with
    | nil => rw [List.intercalate_singleton, List.intercalate_singleton]
    | cons v vs => rw [List.intercalate_cons_cons, List.intercalate_cons_cons]; rfl
  · rw [if_neg hcs]
    cases hw : words cs with
    | nil =>
      rw [if_pos (Or.inr rfl), unwords, List.intercalate_singleton]
      rfl
    | cons w ws =>
      rw [if_neg (by simpa using hcs), unwords, List.intercalate_cons_cons, unwords]
      rfl

theorem joined_cons (hc : isBlank c = false) (cs : List Char) :
    joined (c :: cs) = c :: joined cs := by
  have hstarts : startsWord (c :: cs) = true := by simp [startsWord, hc]
  rw [joined, if_pos (Or.inl hstarts), unwords_words_cons hc]

theorem unwords_words_ne_nil (h : words cs ≠ []) : unwords (words cs) ≠ [] := by
  induction cs with
  | nil => exact absurd rfl h
  | cons c cs ih =>
    by_cases hc : isBlank c = true
    · rw [words_blank hc] at h ⊢
      exact ih h
    · rw [unwords_words_cons (Bool.not_eq_true _ ▸ hc)]
      exact List.cons_ne_nil _ _

/-- A run of characters that are not blank is kept as it is. -/
theorem unwords_words_append (hne : ds ≠ []) (hds : ∀ d ∈ ds, isBlank d = false) (cs : List Char) :
    unwords (words (ds ++ cs)) = ds ++ joined cs := by
  induction ds with
  | nil => exact absurd rfl hne
  | cons d ds ih =>
    rw [List.cons_append, unwords_words_cons (hds d List.mem_cons_self), List.cons_append]
    cases ds with
    | nil => rfl
    | cons e es =>
      have he : isBlank e = false := hds e (List.mem_cons_of_mem d List.mem_cons_self)
      have htail := ih (List.cons_ne_nil e es) fun a ha => hds a (List.mem_cons_of_mem d ha)
      rw [List.cons_append, unwords_words_cons he] at htail
      rw [List.cons_append, joined_cons he, htail]

/-- What follows other characters still begins as it did, or a space keeps it apart, or nothing of
it is left. -/
theorem joined_cases (cs : List Char) :
    (joined cs = unwords (words cs) ∧ (joined cs).head? = cs.head?) ∨
      (joined cs = ' ' :: unwords (words cs) ∧ unwords (words cs) ≠ []) ∨
      (joined cs = [] ∧ unwords (words cs) = []) := by
  rw [joined]
  by_cases hcs : startsWord cs = true
  · obtain ⟨w, ws, hw, hhead⟩ := exists_words_eq hcs
    have hne : w ≠ [] := by
      rintro rfl
      cases cs with
      | nil => cases hcs
      | cons => cases hhead
    refine Or.inl ⟨if_pos (Or.inl hcs), ?_⟩
    rw [if_pos (Or.inl hcs), hw, ← hhead, unwords]
    cases ws with
    | nil => rw [List.intercalate_singleton]
    | cons v vs =>
      rw [List.intercalate_cons_cons, List.append_assoc, List.head?_append_of_ne_nil _ hne]
  · by_cases hw : words cs = []
    · rw [if_pos (Or.inr hw), hw]
      exact Or.inr (Or.inr ⟨rfl, rfl⟩)
    · have hnot : ¬ (startsWord cs = true ∨ words cs = []) := not_or.mpr ⟨hcs, hw⟩
      exact Or.inr (Or.inl ⟨if_neg hnot, unwords_words_ne_nil hw⟩)

theorem joined_space (h : startsWord cs = true) :
    joined (' ' :: cs) = ' ' :: unwords (words cs) := by
  obtain ⟨w, ws, hw, -⟩ := exists_words_eq h
  have hwords : words (' ' :: cs) = w :: ws := by rw [words_blank isBlank_space, hw]
  have hstarts : ¬ startsWord (' ' :: cs) = true := Bool.false_ne_true
  rw [joined, hwords, hw, if_neg (not_or.mpr ⟨hstarts, List.cons_ne_nil _ _⟩)]

/-! ### No blanks at the ends -/

theorem trimEnd_cons (c : Char) (cs : List Char) : trimEnd (c :: cs) =
    if trimEnd cs = [] ∧ isBlank c = true then [] else c :: trimEnd cs := by
  have hnil : (cs.reverse.dropWhile isBlank).isEmpty = true ↔ trimEnd cs = [] := by
    rw [List.isEmpty_iff, trimEnd, List.reverse_eq_nil_iff]
  rw [trimEnd, List.reverse_cons, List.dropWhile_append]
  by_cases h : trimEnd cs = []
  · rw [if_pos (hnil.mpr h), h]
    by_cases hc : isBlank c = true
    · rw [if_pos ⟨rfl, hc⟩, List.dropWhile_cons_of_pos hc]
      rfl
    · rw [if_neg (fun h' => hc h'.2), List.dropWhile_cons_of_neg hc]
      rfl
  · rw [if_neg (fun h' => h (hnil.mp h')), if_neg (fun h' => h h'.1), List.reverse_append, trimEnd]
    rfl

theorem trimEnd_unwords_words (cs : List Char) :
    trimEnd (unwords (words cs)) = unwords (words cs) := by
  induction cs with
  | nil => rfl
  | cons c cs ih =>
    by_cases hc : isBlank c = true
    · rw [words_blank hc, ih]
    · have hjoined : trimEnd (joined cs) = joined cs := by
        rcases joined_cases cs with ⟨h, -⟩ | ⟨h, hne⟩ | ⟨h, -⟩
        · rw [h, ih]
        · rw [h, trimEnd_cons, ih, if_neg fun h' => hne h'.1]
        · rw [h]
          rfl
      rw [unwords_words_cons (Bool.not_eq_true _ ▸ hc), trimEnd_cons, hjoined,
        if_neg fun h' => hc h'.2]

/-- Words joined by spaces have no blanks around them. -/
theorem trim_unwords_words (cs : List Char) : trim (unwords (words cs)) = unwords (words cs) := by
  induction cs with
  | nil => rfl
  | cons c cs ih =>
    by_cases hc : isBlank c = true
    · rw [words_blank hc, ih]
    · have h := trimEnd_unwords_words (c :: cs)
      rw [unwords_words_cons (Bool.not_eq_true _ ▸ hc)] at h ⊢
      rw [trim, List.dropWhile_cons_of_neg hc, h]

end Reckoner.Text
