import Mathlib.Order.Bounds.Basic
import Reckoner.Proofs.Desk.Editing

/-!
# Moving the cursor by words

A word starts where a character that is not blank stands at the beginning of the line or behind a
blank. Moving to the left, the cursor goes back over blanks and then over a word, and stops at the
last word start before it (`wordStart_before`); moving to the right, it goes on over the rest of a
word and then over blanks, and stops at the first word start behind it (`wordStart_behind`). It does
so from everywhere in the line, and meets no index outside of it.
-/

namespace Reckoner

namespace Text

variable {cs : List Char} {n m a i : Nat}

/-- A word starts at the index. -/
structure WordStart (cs : List Char) (i : Nat) : Prop where
  /-- A character that is not blank is at the index. -/
  here : ∃ c, cs[i]? = some c ∧ isBlank c = false
  /-- The beginning of the text, or a blank, is before it. -/
  before : i = 0 ∨ ∃ b, cs[i - 1]? = some b ∧ isBlank b = true

namespace WordStart

theorem lt_length (h : WordStart cs i) : i < cs.length := by
  obtain ⟨c, hc, -⟩ := h.here
  exact (List.getElem?_eq_some_iff.1 hc).1

/-- No word starts at a blank. -/
theorem not_blank (h : WordStart cs i) {c : Char} (hc : cs[i]? = some c) : isBlank c = false := by
  obtain ⟨d, hd, hblank⟩ := h.here
  rwa [← Option.some.inj (hd.symm.trans hc)]

/-- No word starts behind a character that is not blank. -/
theorem blank_before (h : WordStart cs (i + 1)) {b : Char} (hb : cs[i]? = some b) :
    isBlank b = true := by
  obtain hzero | ⟨d, hd, hblank⟩ := h.before
  · cases hzero
  · rwa [← Option.some.inj (hd.symm.trans hb)]

/-- A word start is not within a run of characters that are not blank, unless it begins the run. -/
theorem le_of_run (h : WordStart cs i) (hna : n ≤ cs.length)
    (hrun : ∀ j c, a ≤ j → j < n → cs[j]? = some c → isBlank c = false) (hi : i ≤ n) : i ≤ a := by
  by_contra hlt
  obtain ⟨j, rfl⟩ : ∃ j, i = j + 1 := ⟨i - 1, by omega⟩
  have hj : j < cs.length := by omega
  have hblank := h.blank_before (List.getElem?_eq_getElem hj)
  rw [hrun j _ (by omega) (by omega) (List.getElem?_eq_getElem hj)] at hblank
  cases hblank

/-- A word start is not within a run of blanks. -/
theorem le_of_blanks (h : WordStart cs i)
    (hrun : ∀ j c, a ≤ j → j < n → cs[j]? = some c → isBlank c = true) (hi : a ≤ i) : n ≤ i := by
  by_contra hlt
  have hblank := hrun i _ hi (by omega) (List.getElem?_eq_getElem h.lt_length)
  rw [h.not_blank (List.getElem?_eq_getElem h.lt_length)] at hblank
  cases hblank

end WordStart

/-- Going back over blanks and then over a word ends at the last word start before, or at the
beginning if no word starts before. -/
theorem wordStart_before (hn : n ≤ cs.length) (ha : back? isBlank cs n = some a)
    (hm : back? (!isBlank ·) cs a = some m) :
    IsGreatest {i | WordStart cs i ∧ i < n} m ∨ {i | WordStart cs i ∧ i < n} = ∅ ∧ m = 0 := by
  obtain ⟨han, hblanks, hword⟩ := back?_spec ha
  obtain ⟨hma, hrun, hstop⟩ := back?_spec hm
  simp only [Bool.not_eq_true', Bool.not_eq_false'] at hrun hstop
  -- a word start before the blanks is not within the word that was gone back over
  have hle (i : Nat) (hi : WordStart cs i) (hin : i < n) : i < a ∧ i ≤ m := by
    have hia : i < a := Nat.lt_of_not_le fun h =>
      absurd (hi.le_of_blanks hblanks h) (Nat.not_le.2 hin)
    exact ⟨hia, hi.le_of_run (han.trans hn) hrun hia.le⟩
  cases a with
  | zero =>
    refine .inr ⟨Set.eq_empty_of_forall_notMem fun i hi => ?_, Nat.eq_zero_of_le_zero hma⟩
    exact absurd (hle i hi.1 hi.2).1 (Nat.not_lt_zero i)
  | succ a =>
    -- the character that ended the blanks belongs to the word
    have halength : a < cs.length := by omega
    have hlast := hword a _ rfl (List.getElem?_eq_getElem halength)
    have hm' : m < a + 1 := by
      refine Nat.lt_of_le_of_ne hma fun h => ?_
      have hblank := hstop a _ h.symm (List.getElem?_eq_getElem halength)
      rw [hlast] at hblank
      cases hblank
    have hmlength : m < cs.length := by omega
    have hhere : isBlank cs[m] = false :=
      hrun m _ (Nat.le_refl m) hm' (List.getElem?_eq_getElem hmlength)
    have hbefore : m = 0 ∨ ∃ b, cs[m - 1]? = some b ∧ isBlank b = true := by
      cases m with
      | zero => exact .inl rfl
      | succ k =>
        have hk : k < cs.length := by omega
        exact .inr ⟨_, List.getElem?_eq_getElem hk, hstop k _ rfl (List.getElem?_eq_getElem hk)⟩
    have hstart : WordStart cs m := ⟨⟨_, List.getElem?_eq_getElem hmlength, hhere⟩, hbefore⟩
    exact .inl ⟨⟨hstart, by omega⟩, fun i hi => (hle i hi.1 hi.2).2⟩

/-- Going on over the rest of a word and then over blanks ends at the first word start behind, or at
the end if no word starts behind. -/
theorem wordStart_behind (hn : n ≤ cs.length) (ha : onward? (!isBlank ·) cs n = some a)
    (hm : onward? isBlank cs a = some m) :
    IsLeast {i | WordStart cs i ∧ n < i} m ∨
      {i | WordStart cs i ∧ n < i} = ∅ ∧ m = cs.length := by
  obtain ⟨hna, halength, hrun, hword⟩ := onward?_spec ha hn
  obtain ⟨ham, hmlength, hblanks, hstop⟩ := onward?_spec hm halength
  simp only [Bool.not_eq_true', Bool.not_eq_false'] at hrun hword
  -- a word start behind the word is not within the blanks that were gone over
  have hle (i : Nat) (hi : WordStart cs i) (hin : n < i) : m ≤ i := by
    have hai : a ≤ i := by
      by_contra hlt
      exact absurd (hi.le_of_run halength hrun (by omega)) (Nat.not_le.2 hin)
    exact hi.le_of_blanks hblanks hai
  obtain hend | hm' := Nat.eq_or_lt_of_le hmlength
  · refine .inr ⟨Set.eq_empty_of_forall_notMem fun i hi => ?_, hend⟩
    exact absurd (hle i hi.1 hi.2) (by have := hi.1.lt_length; omega)
  · have hhere : isBlank cs[m] = false := hstop _ (List.getElem?_eq_getElem hm')
    -- the character that ended the word is blank, so it is gone over
    have ham' : a < m := by
      refine Nat.lt_of_le_of_ne ham ?_
      rintro rfl
      rw [hword _ (List.getElem?_eq_getElem hm')] at hhere
      cases hhere
    have hprev : m - 1 < cs.length := by omega
    have hbefore : isBlank cs[m - 1] = true :=
      hblanks (m - 1) _ (by omega) (by omega) (List.getElem?_eq_getElem hprev)
    have hstart : WordStart cs m :=
      ⟨⟨_, List.getElem?_eq_getElem hm', hhere⟩, .inr ⟨_, List.getElem?_eq_getElem hprev, hbefore⟩⟩
    exact .inl ⟨⟨hstart, by omega⟩, fun i hi => hle i hi.1 hi.2⟩

end Text

namespace Desk

open Text

variable {d : Desk}

/-- **Moving by words.** As long as the cursor is not beyond the line, moving it by a word meets no
index outside the line and changes nothing but the cursor. To the left it comes to the last word
start before it, or to the beginning of the line if there is none; to the right it comes to the
first word start behind it, or to the end of the line if there is none. -/
theorem moveWord_wordStart (h : d.cursor ≤ d.input.length) :
    (d.moveWordLeft? = some d.moveWordLeft ∧
      d.moveWordLeft = { d with cursor := d.moveWordLeft.cursor } ∧
      let before := {i | WordStart d.input i ∧ i < d.cursor}
      (IsGreatest before d.moveWordLeft.cursor ∨ before = ∅ ∧ d.moveWordLeft.cursor = 0)) ∧
    (d.moveWordRight? = some d.moveWordRight ∧
      d.moveWordRight = { d with cursor := d.moveWordRight.cursor } ∧
      let behind := {i | WordStart d.input i ∧ d.cursor < i}
      (IsLeast behind d.moveWordRight.cursor ∨
        behind = ∅ ∧ d.moveWordRight.cursor = d.input.length)) := by
  have hleft := back?_bind_back? isBlank (!isBlank ·) h
  have hright := onward?_bind_onward? (!isBlank ·) isBlank h
  obtain ⟨a, ha, hm⟩ := Option.bind_eq_some_iff.1 hleft
  obtain ⟨b, hb, hk⟩ := Option.bind_eq_some_iff.1 hright
  exact ⟨⟨moveWordLeft?_eq_some h, rfl, wordStart_before h ha hm⟩,
    ⟨moveWordRight?_eq_some h, rfl, wordStart_behind h hb hk⟩⟩

/-- From the blank behind the second of three words the cursor comes to the beginning of that word,
which two kinds of blanks keep apart from the first, and to the beginning of the third. -/
theorem moveWord_wordStart_between :
    let d : Desk := { Desk.new (Session.new ⟨[], ⟨"h.log"⟩⟩ ⟨"/"⟩) (.empty []) with
      input := "12 \u00A0+ 3".toList, cursor := 5 }
    d.cursor ≤ d.input.length ∧ d.moveWordLeft? = some d.moveWordLeft ∧
      IsGreatest {i | WordStart d.input i ∧ i < 5} 4 ∧
      d.moveWordRight? = some d.moveWordRight ∧ IsLeast {i | WordStart d.input i ∧ 5 < i} 6 := by
  intro d
  have hcursor : d.cursor ≤ d.input.length := by decide
  have hleft : d.moveWordLeft.cursor = 4 := by decide +kernel
  have hright : d.moveWordRight.cursor = 6 := by decide +kernel
  obtain ⟨⟨hreads, -, hbefore⟩, ⟨hreads', -, hbehind⟩⟩ := moveWord_wordStart hcursor
  rw [hleft] at hbefore
  rw [hright] at hbehind
  refine ⟨hcursor, hreads, hbefore.resolve_right fun h => ?_, hreads',
    hbehind.resolve_right fun h => ?_⟩
  · exact absurd h.2 (by decide)
  · exact absurd h.2 (by decide)

end Desk

end Reckoner
