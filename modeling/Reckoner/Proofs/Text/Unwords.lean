import Mathlib.Data.List.Chain
import Reckoner.Proofs.Text.Unblanked
import Reckoner.Proofs.Text.Words

/-!
# Words and the text that they make

Words joined by single spaces are found again as they were (`words_unwords`), and the text has no
more blanks than it needs: it is `Tidy`. What the words of a text have in them is the text without
its blanks (`flatten_words`).
-/

namespace Reckoner.Text

variable {c : Char} {w cs : List Char} {vs ws : List (List Char)}

/-- A word: some characters, none of them blank. -/
structure IsWord (w : List Char) : Prop where
  ne_nil : w ≠ []
  not_blank : ∀ c ∈ w, isBlank c = false

theorem IsWord.singleton (hc : isBlank c = false) : IsWord [c] where
  ne_nil := List.cons_ne_nil c []
  not_blank d hd := by rwa [List.mem_singleton.1 hd]

theorem IsWord.cons (hc : isBlank c = false) (hw : IsWord w) : IsWord (c :: w) where
  ne_nil := List.cons_ne_nil c w
  not_blank d hd := by
    obtain rfl | hd := List.mem_cons.1 hd
    · exact hc
    · exact hw.not_blank d hd

/-! ### The words of a text -/

theorem isWord_of_mem_words (hw : w ∈ words cs) : IsWord w := by
  induction cs generalizing w with
  | nil => cases hw
  | cons c cs ih =>
    cases hc : isBlank c with
    | true => exact ih (words_blank hc cs ▸ hw)
    | false =>
      rw [words_cons hc] at hw
      split_ifs at hw with hcs
      · obtain ⟨v, vs, hv, -⟩ := exists_words_eq hcs
        rw [hv, List.modifyHead_cons] at hw
        rw [hv] at ih
        obtain rfl | hw := List.mem_cons.1 hw
        · exact (ih List.mem_cons_self).cons hc
        · exact ih (List.mem_cons_of_mem v hw)
      · obtain rfl | hw := List.mem_cons.1 hw
        · exact .singleton hc
        · exact ih hw

/-- The words have all that is not blank. -/
theorem flatten_words (cs : List Char) : (words cs).flatten = unblanked cs := by
  induction cs with
  | nil => rfl
  | cons c cs ih =>
    cases hc : isBlank c with
    | true => rw [words_blank hc, unblanked_blank hc, ih]
    | false =>
      rw [words_cons hc, unblanked_cons hc, ← ih]
      split_ifs with hcs
      · obtain ⟨v, vs, hv, -⟩ := exists_words_eq hcs
        rw [hv]
        rfl
      · rfl

/-- A word ends where the next character is blank, or where there is none. -/
theorem words_append (hw : IsWord w) (hcs : startsWord cs = false) :
    words (w ++ cs) = w :: words cs := by
  obtain ⟨hne, hblank⟩ := hw
  induction w with
  | nil => exact absurd rfl hne
  | cons c w ih =>
    have hc : isBlank c = false := hblank c List.mem_cons_self
    rw [List.cons_append, words_cons hc]
    cases w with
    | nil =>
      rw [List.nil_append, if_neg (Bool.not_eq_true _ ▸ hcs)]
    | cons d w =>
      have hd : isBlank d = false := hblank d (List.mem_cons_of_mem c List.mem_cons_self)
      have hstarts : startsWord (d :: w ++ cs) = true := by simp [startsWord, hd]
      rw [if_pos hstarts,
        ih (List.cons_ne_nil d w) fun a ha => hblank a (List.mem_cons_of_mem c ha)]
      rfl

theorem words_of_isWord (hw : IsWord w) : words w = [w] := by
  have h : words (w ++ []) = w :: words [] := words_append hw rfl
  rwa [List.append_nil] at h

/-! ### Joining words -/

theorem unwords_cons_cons (w v : List Char) (ws : List (List Char)) :
    unwords (w :: v :: ws) = w ++ ' ' :: unwords (v :: ws) := by
  rw [unwords, List.intercalate_cons_cons, List.append_assoc]
  rfl

theorem unwords_singleton (w : List Char) : unwords [w] = w := List.intercalate_singleton

theorem unwords_append (hvs : vs ≠ []) (hws : ws ≠ []) :
    unwords (vs ++ ws) = unwords vs ++ ' ' :: unwords ws := by
  obtain ⟨w, ws, rfl⟩ := List.exists_cons_of_ne_nil hws
  induction vs with
  | nil => exact absurd rfl hvs
  | cons v vs ih =>
    cases vs with
    | nil => rw [unwords_singleton]; exact unwords_cons_cons v w ws
    | cons u us =>
      have htail := ih (List.cons_ne_nil u us)
      rw [List.cons_append, List.cons_append, unwords_cons_cons, ← List.cons_append, htail,
        unwords_cons_cons, List.append_assoc, List.cons_append]

theorem unwords_concat (hws : ws ≠ []) (w : List Char) :
    unwords (ws ++ [w]) = unwords ws ++ ' ' :: w := by
  rw [unwords_append hws (List.cons_ne_nil w []), unwords_singleton]

/-- Words are found again when they have been joined. -/
theorem words_unwords (h : ∀ w ∈ ws, IsWord w) : words (unwords ws) = ws := by
  induction ws with
  | nil => rfl
  | cons w ws ih =>
    have hw : IsWord w := h w List.mem_cons_self
    cases ws with
    | nil => rw [unwords_singleton, words_of_isWord hw]
    | cons v ws =>
      have hvs := ih fun u hu => h u (List.mem_cons_of_mem w hu)
      rw [unwords_cons_cons, words_append hw rfl, words_blank isBlank_space, hvs]

/-! ### Tidy texts -/

/-- A text without blanks at its ends in which all others are single spaces. -/
structure Tidy (cs : List Char) : Prop where
  ne_nil : cs ≠ []
  head : ∀ c ∈ cs.head?, isBlank c = false
  last : ∀ c ∈ cs.getLast?, isBlank c = false
  /-- There are no blanks but spaces. -/
  eq_space : ∀ c ∈ cs, isBlank c = true → c = ' '
  /-- No two of them stand side by side. -/
  single : cs.IsChain fun a b => isBlank a = true → isBlank b = false

theorem IsWord.tidy (hw : IsWord w) : Tidy w where
  ne_nil := hw.ne_nil
  head c hc := hw.not_blank c (List.mem_of_mem_head? hc)
  last c hc := hw.not_blank c (List.mem_of_mem_getLast? hc)
  eq_space c hc hblank := absurd (hw.not_blank c hc) (Bool.not_eq_false _ ▸ hblank)
  single := by
    have h : w.Pairwise fun a b => isBlank a = true → isBlank b = false :=
      List.pairwise_of_forall_mem_list fun _ _ b hb _ => hw.not_blank b hb
    exact h.isChain

/-- Two tidy texts with a space between them are a tidy text. -/
theorem Tidy.append_space {ds : List Char} (hcs : Tidy cs) (hds : Tidy ds) :
    Tidy (cs ++ ' ' :: ds) where
  ne_nil := List.append_ne_nil_of_left_ne_nil hcs.ne_nil _
  head := by
    rw [List.head?_append_of_ne_nil _ hcs.ne_nil]
    exact hcs.head
  last := by
    rw [List.getLast?_append_of_ne_nil _ (List.cons_ne_nil _ _),
      List.getLast?_cons_of_ne_nil hds.ne_nil]
    exact hds.last
  eq_space := by
    simp only [List.mem_append, List.mem_cons]
    rintro c (hc | rfl | hc) hblank
    · exact hcs.eq_space c hc hblank
    · rfl
    · exact hds.eq_space c hc hblank
  single := by
    rw [List.isChain_append, List.isChain_cons]
    exact ⟨hcs.single, ⟨fun c hc _ => hds.head c hc, hds.single⟩,
      fun c hc _ _ hblank => absurd (hcs.last c hc) (Bool.not_eq_false _ ▸ hblank)⟩

/-- Words joined by single spaces make a tidy text. -/
theorem tidy_unwords (hws : ws ≠ []) (h : ∀ w ∈ ws, IsWord w) : Tidy (unwords ws) := by
  induction ws with
  | nil => exact absurd rfl hws
  | cons w ws ih =>
    have hw : IsWord w := h w List.mem_cons_self
    cases ws with
    | nil =>
      rw [unwords_singleton]
      exact hw.tidy
    | cons v ws =>
      rw [unwords_cons_cons]
      exact hw.tidy.append_space
        (ih (List.cons_ne_nil v ws) fun u hu => h u (List.mem_cons_of_mem w hu))

/-- A blank in a tidy text is a space with other characters on either side. -/
theorem Tidy.between {as bs : List Char} (h : Tidy (as ++ c :: bs)) (hc : isBlank c = true) :
    c = ' ' ∧ (∃ a, as.getLast? = some a ∧ isBlank a = false) ∧
      ∃ b, bs.head? = some b ∧ isBlank b = false := by
  obtain ⟨-, hchain, hlast⟩ := List.isChain_append.1 h.single
  have has : as ≠ [] := by
    rintro rfl
    rw [h.head c rfl] at hc
    cases hc
  have hbs : bs ≠ [] := by
    rintro rfl
    rw [h.last c List.getLast?_concat] at hc
    cases hc
  refine ⟨h.eq_space c (List.mem_append_right as List.mem_cons_self) hc,
    ⟨as.getLast has, List.getLast?_eq_some_getLast has, ?_⟩,
    ⟨bs.head hbs, List.head?_eq_some_head hbs, ?_⟩⟩
  · -- were it blank, the blank behind it would not be
    by_contra ha
    have hnot := hlast _ (List.getLast?_eq_some_getLast has) c rfl (Bool.not_eq_false _ ▸ ha)
    rw [hc] at hnot
    cases hnot
  · exact (List.isChain_cons.1 hchain).1 _ (List.head?_eq_some_head hbs) hc

/-- All that a tidy text has but its spaces is not blank. -/
theorem Tidy.filter_ne_space (h : Tidy cs) : cs.filter (· ≠ ' ') = unblanked cs := by
  refine List.filter_congr fun c hc => ?_
  cases hblank : isBlank c with
  | true => rw [h.eq_space c hc hblank]; decide
  | false =>
    have hne : c ≠ ' ' := by
      rintro rfl
      exact absurd isBlank_space (Bool.not_eq_true _ ▸ hblank)
    exact decide_eq_true hne

end Reckoner.Text
