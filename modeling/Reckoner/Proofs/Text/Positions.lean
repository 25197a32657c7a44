import Mathlib.Data.List.Infix
import Reckoner.Proofs.Text.Utf8

/-!
# Places in a text

A text is kept as bytes, and a place in it is told by how many bytes stand before it. Not every
number of bytes will do: it may fall within a character or behind the end. A character is put in or
taken out only at a place between characters (`insertAt?`, `removeAt?`). The place behind some
number of characters is one of these, whatever the number (`charsBefore?_offset`).

A text that has been spread out as characters is read at one index after the other, as long as the
characters have some property (`back?`, `onward?`). No index lies outside the text if the first one
does not.
-/

namespace Reckoner.Text

/-! ### Between two parts -/

theorem insertIdx_length_append (before after : List Char) (b : Char) :
    (before ++ after).insertIdx before.length b = before ++ b :: after := by
  induction before with
  | nil => rfl
  | cons c before ih => exact congrArg (c :: ·) ih

theorem eraseIdx_length_append (before after : List Char) (b : Char) :
    (before ++ b :: after).eraseIdx before.length = before ++ after := by
  rw [List.eraseIdx_append_of_length_le (Nat.le_refl _), Nat.sub_self, List.eraseIdx_cons_zero]

theorem insertIdx_eq_take_drop {cs : List Char} {n : Nat} (h : n ≤ cs.length) (b : Char) :
    cs.insertIdx n b = cs.take n ++ b :: cs.drop n := by
  have hinsert := insertIdx_length_append (cs.take n) (cs.drop n) b
  rwa [List.take_append_drop, List.length_take_of_le h] at hinsert

namespace Utf8

/-! ### Bytes -/

/-- How many characters stand before a place that is told in bytes, if it is between characters. -/
def charsBefore? : List Char → Nat → Option Nat
  | _, 0 => some 0
  | [], _ + 1 => none
  | c :: cs, b + 1 =>
    if c.utf8Size ≤ b + 1 then (charsBefore? cs (b + 1 - c.utf8Size)).map (· + 1) else none

/-- The text with a character put in at a place that is told in bytes. -/
def insertAt? (cs : List Char) (b : Nat) (c : Char) : Option (List Char) :=
  (charsBefore? cs b).map fun n => cs.insertIdx n c

/-- The text without the character behind a place that is told in bytes. -/
def removeAt? (cs : List Char) (b : Nat) : Option (List Char) :=
  (charsBefore? cs b).bind fun n => if n < cs.length then some (cs.eraseIdx n) else none

/-- The text before a place that is told in bytes. -/
def sliceTo? (cs : List Char) (b : Nat) : Option (List Char) :=
  (charsBefore? cs b).map fun n => cs.take n

theorem length_encode_cons (c : Char) (cs : List Char) :
    (encode (c :: cs)).length = c.utf8Size + (encode cs).length := by
  rw [encode_cons, List.length_append, String.length_utf8EncodeChar]

theorem offset_cons_succ (c : Char) (cs : List Char) (n : Nat) :
    offset (c :: cs) (n + 1) = c.utf8Size + offset cs n := by
  rw [offset, List.take_succ_cons, length_encode_cons, offset]

theorem charsBefore?_cons (c : Char) (cs : List Char) (b : Nat) :
    charsBefore? (c :: cs) (c.utf8Size + b) = (charsBefore? cs b).map (· + 1) := by
  have hpos := c.utf8Size_pos
  obtain ⟨k, hk⟩ : ∃ k, c.utf8Size + b = k + 1 := ⟨c.utf8Size + b - 1, by omega⟩
  have hb : k + 1 - c.utf8Size = b := by omega
  rw [hk, charsBefore?, if_pos (by omega), hb]

/-- The place behind some characters is between characters. -/
theorem charsBefore?_offset (cs : List Char) (n : Nat) :
    charsBefore? cs (offset cs n) = some (min n cs.length) := by
  induction cs generalizing n with
  | nil => cases n <;> rfl
  | cons c cs ih =>
    cases n with
    | zero => rfl
    | succ n =>
      rw [offset_cons_succ, charsBefore?_cons, ih, List.length_cons, Nat.succ_min_succ]
      rfl

/-- The place behind all characters is the end. -/
theorem offset_lt_iff (cs : List Char) (n : Nat) :
    offset cs n < (encode cs).length ↔ n < cs.length := by
  induction cs generalizing n with
  | nil => cases n <;> simp [offset, encode]
  | cons c cs ih =>
    cases n with
    | zero =>
      have hpos := c.utf8Size_pos
      rw [length_encode_cons]
      exact iff_of_true (Nat.add_pos_left hpos _) (Nat.succ_pos _)
    | succ n =>
      rw [offset_cons_succ, length_encode_cons, List.length_cons, Nat.add_lt_add_iff_left, ih,
        Nat.add_lt_add_iff_right]

theorem insertAt?_offset (cs : List Char) (n : Nat) (c : Char) :
    insertAt? cs (offset cs n) c = some (cs.insertIdx (min n cs.length) c) := by
  rw [insertAt?, charsBefore?_offset, Option.map_some]

theorem removeAt?_offset {cs : List Char} {n : Nat} (h : n < cs.length) :
    removeAt? cs (offset cs n) = some (cs.eraseIdx n) := by
  rw [removeAt?, charsBefore?_offset, Nat.min_eq_left h.le, Option.bind_some, if_pos h]

theorem sliceTo?_offset (cs : List Char) (n : Nat) :
    sliceTo? cs (offset cs n) = some (cs.take n) := by
  rw [sliceTo?, charsBefore?_offset, Option.map_some, ← List.take_eq_take_min]

end Utf8

/-! ### Indices -/

variable {p : Char → Bool} {cs : List Char} {n : Nat}

/-- Go back from an index as long as the characters before it have the property. -/
def back? (p : Char → Bool) (cs : List Char) : Nat → Option Nat
  | 0 => some 0
  | n + 1 => cs[n]?.bind fun c => if p c then back? p cs n else some (n + 1)

/-- Go on from an index as long as the characters behind it have the property. -/
def onward? (p : Char → Bool) (cs : List Char) (n : Nat) : Option Nat :=
  if n < cs.length then cs[n]?.bind fun c => if p c then onward? p cs (n + 1) else some n
  else some n
termination_by cs.length - n

theorem back?_eq_some (h : n ≤ cs.length) :
    back? p cs n = some ((cs.take n).reverse.dropWhile p).length := by
  induction n with
  | zero => rfl
  | succ n ih =>
    have hn : n < cs.length := h
    rw [back?, List.getElem?_eq_getElem hn, Option.bind_some, List.take_succ_eq_append_getElem hn,
      List.reverse_append, List.reverse_singleton, List.singleton_append, List.dropWhile_cons]
    split_ifs
    · exact ih hn.le
    · simp [hn.le]

theorem onward?_eq_some (h : n ≤ cs.length) :
    onward? p cs n = some (cs.length - ((cs.drop n).dropWhile p).length) := by
  induction hk : cs.length - n generalizing n with
  | zero =>
    have hn : n = cs.length := by omega
    rw [onward?, if_neg (by omega), hn, List.drop_length, List.dropWhile_nil, List.length_nil,
      Nat.sub_zero]
  | succ k ih =>
    have hn : n < cs.length := by omega
    rw [onward?, if_pos hn, List.getElem?_eq_getElem hn, Option.bind_some,
      List.drop_eq_getElem_cons hn, List.dropWhile_cons]
    split_ifs
    · exact ih hn (by omega)
    · rw [List.length_cons, List.length_drop]
      congr 1
      omega

/-- All characters gone back over have the property, and the one before them does not. -/
theorem back?_spec {m : Nat} (h : back? p cs n = some m) :
    m ≤ n ∧ (∀ i c, m ≤ i → i < n → cs[i]? = some c → p c = true) ∧
      ∀ i c, i + 1 = m → cs[i]? = some c → p c = false := by
  induction n with
  | zero =>
    obtain rfl : 0 = m := Option.some.inj h
    exact ⟨Nat.le_refl 0, fun i _ _ hi => absurd hi (Nat.not_lt_zero i), fun i _ hi => nomatch hi⟩
  | succ n ih =>
    obtain ⟨d, hd, hback⟩ := Option.bind_eq_some_iff.1 h
    split_ifs at hback with hp
    · obtain ⟨hle, hover, hstop⟩ := ih hback
      refine ⟨hle.trans n.le_succ, fun i c hmi hin hc => ?_, hstop⟩
      obtain hin | rfl := Nat.lt_succ_iff_lt_or_eq.1 hin
      · exact hover i c hmi hin hc
      · rwa [← Option.some.inj (hd.symm.trans hc)]
    · obtain rfl : n + 1 = m := Option.some.inj hback
      refine ⟨Nat.le_refl _, fun i _ hmi hin => absurd hin (Nat.not_lt.2 hmi), fun i c hi hc => ?_⟩
      obtain rfl : i = n := Nat.succ.inj hi
      rw [← Option.some.inj (hd.symm.trans hc)]
      exact Bool.not_eq_true _ ▸ hp

/-- All characters gone over have the property, and the one behind them does not. -/
theorem onward?_spec {m : Nat} (h : onward? p cs n = some m) (hn : n ≤ cs.length) :
    n ≤ m ∧ m ≤ cs.length ∧ (∀ i c, n ≤ i → i < m → cs[i]? = some c → p c = true) ∧
      ∀ c, cs[m]? = some c → p c = false := by
  induction hk : cs.length - n generalizing n with
  | zero =>
    have hend : n = cs.length := by omega
    rw [onward?, if_neg (by omega)] at h
    obtain rfl : n = m := Option.some.inj h
    refine ⟨Nat.le_refl n, hn, fun i _ hni hin => absurd hin (Nat.not_lt.2 hni), fun c hc => ?_⟩
    rw [List.getElem?_eq_none hend.ge] at hc
    cases hc
  | succ k ih =>
    rw [onward?, if_pos (by omega)] at h
    obtain ⟨d, hd, honward⟩ := Option.bind_eq_some_iff.1 h
    split_ifs at honward with hp
    · obtain ⟨hle, hlength, hover, hstop⟩ := ih honward (by omega) (by omega)
      refine ⟨n.le_succ.trans hle, hlength, fun i c hni him hc => ?_, hstop⟩
      obtain hni | rfl := Nat.lt_or_eq_of_le hni
      · exact hover i c hni him hc
      · rwa [← Option.some.inj (hd.symm.trans hc)]
    · obtain rfl : n = m := Option.some.inj honward
      refine ⟨Nat.le_refl n, hn, fun i _ hni hin => absurd hin (Nat.not_lt.2 hni), fun c hc => ?_⟩
      rw [← Option.some.inj (hd.symm.trans hc)]
      exact Bool.not_eq_true _ ▸ hp

/-- Go back over characters with one property and then over characters with another. -/
theorem back?_bind_back? (p q : Char → Bool) (h : n ≤ cs.length) :
    (back? p cs n).bind (back? q cs) =
      some (((cs.take n).reverse.dropWhile p).dropWhile q).length := by
  -- what is left before the first stop is a beginning of the text
  have hprefix : ((cs.take n).reverse.dropWhile p).reverse <+: cs := by
    have hsuffix := List.dropWhile_suffix (l := (cs.take n).reverse) p
    rw [← List.reverse_prefix, List.reverse_reverse] at hsuffix
    exact hsuffix.trans (List.take_prefix n cs)
  have hlength := hprefix.length_le
  rw [List.length_reverse] at hlength
  rw [List.prefix_iff_eq_take, List.length_reverse] at hprefix
  rw [back?_eq_some h, Option.bind_some, back?_eq_some hlength, ← hprefix, List.reverse_reverse]

/-- Go on over characters with one property and then over characters with another. -/
theorem onward?_bind_onward? (p q : Char → Bool) (h : n ≤ cs.length) :
    (onward? p cs n).bind (onward? q cs) =
      some (cs.length - (((cs.drop n).dropWhile p).dropWhile q).length) := by
  -- what is left behind the first stop is an end of the text
  have hsuffix : (cs.drop n).dropWhile p <:+ cs :=
    (List.dropWhile_suffix p).trans (List.drop_suffix n cs)
  rw [List.suffix_iff_eq_drop] at hsuffix
  rw [onward?_eq_some h, Option.bind_some, onward?_eq_some (Nat.sub_le _ _), ← hsuffix]

end Reckoner.Text
