import Reckoner.Proofs.Text.Lines
import Reckoner.Proofs.Text.Pieces

/-!
# Cutting before and after decoding

A character that is written with a single byte is never a part of something broken: no other
character is written with that byte, so a broken run stops before it (`Broken.append`). Hence it
stands in the text where its byte stands, and nowhere else (`decodeLossy_append`,
`mem_decodeLossy_iff`), and bytes that are cut at the byte decode to the text cut at the character
(`segments_decodeLossy`). With the line feed and the carriage return this gives the lines of a text
from the bytes of each line (`lines_decodeLossy`).
-/

namespace Reckoner.Text.Utf8

variable {a c : Char} {b : UInt8} {bs bs' run rest : List UInt8} {cs : List Char}
  {ps qs : List (Option Char)}

/-! ### The text by its description -/

/-- The text has each character of the bytes, and U+FFFD for each broken run. -/
def IsLossy (bs : List UInt8) (cs : List Char) : Prop :=
  ∃ ps, IsPieces bs ps ∧ cs = ps.map (·.getD '\uFFFD')

theorem isLossy_decodeLossy (bs : List UInt8) : IsLossy bs (decodeLossy bs) :=
  ⟨pieces bs, isPieces_iff.2 rfl, rfl⟩

theorem IsPieces.eq_encode (h : IsPieces bs (cs.map some)) : bs = encode cs := by
  induction cs generalizing bs with
  | nil =>
    cases h
    rfl
  | cons c cs ih =>
    cases h with
    | char c h => rw [ih h, encode_cons]

/-- The strict reader reads the bytes of a text and nothing else. -/
theorem decode?_eq_some_iff : decode? bs = some cs ↔ bs = encode cs := by
  constructor
  · intro h
    rw [decode?, mapM_id_eq_some_iff, ← isPieces_iff] at h
    exact h.eq_encode
  · rintro rfl
    exact decode?_encode cs

theorem IsPieces.eq_nil (h : IsPieces bs []) : bs = [] := by
  cases h
  rfl

theorem decodeLossy_eq_nil_iff : decodeLossy bs = [] ↔ bs = [] := by
  rw [decodeLossy, List.map_eq_nil_iff, ← isPieces_iff]
  constructor
  · exact IsPieces.eq_nil
  · rintro rfl
    exact .nil

/-! ### Characters of one byte -/

section OneByte

variable (hab : String.utf8EncodeChar a = [b])
include hab

/-- Bytes within a character are not those of another. -/
theorem not_begins_concat (h : run ≠ []) : ¬ Begins (run ++ [b]) := by
  rintro ⟨c, hc⟩
  have hb : b ∈ String.utf8EncodeChar c := hc.subset (by simp)
  rw [eq_of_mem_encodeChar hab hb, hab] at hc
  have hlen := hc.length_le
  have hpos := List.length_pos_iff.2 h
  rw [List.length_append] at hlen
  omega

/-- A broken run stops before the byte of a character. -/
theorem Broken.append (h : Broken run rest) (bs : List UInt8) : Broken run (rest ++ b :: bs) where
  ne_nil := h.ne_nil
  unconvertible c := by
    rintro ⟨more, hc⟩
    rw [← List.append_assoc, List.append_eq_append_iff] at hc
    obtain ⟨es, hes, -⟩ | ⟨es, hes, hb⟩ := hc
    · exact h.unconvertible c ⟨es, hes.symm⟩
    · cases es with
      | nil => exact h.unconvertible c ⟨[], by rw [List.append_nil, hes, List.append_nil]⟩
      | cons d es =>
        -- the character would be written with the byte and others before it
        obtain ⟨rfl, -⟩ := List.cons.inj hb
        refine not_begins_concat hab ?_ ⟨c, es, (List.append_cons ..).symm.trans hes.symm⟩
        exact List.append_ne_nil_of_left_ne_nil h.ne_nil _
  begins := h.begins
  maximal d hd := by
    cases rest with
    | cons d' rest => exact h.maximal d hd
    | nil =>
      obtain rfl : b = d := by simpa using hd
      exact not_begins_concat hab h.ne_nil

theorem IsPieces.append (h : IsPieces bs ps) (h' : IsPieces bs' qs) :
    IsPieces (bs ++ b :: bs') (ps ++ some a :: qs) := by
  induction h with
  | nil =>
    rw [List.nil_append, List.nil_append, ← List.singleton_append, ← hab]
    exact .char a h'
  | char c h ih =>
    rw [List.append_assoc]
    exact .char c ih
  | broken hrun h ih =>
    rw [List.append_assoc]
    exact .broken (hrun.append hab bs') ih

theorem pieces_append (bs bs' : List UInt8) :
    pieces (bs ++ b :: bs') = pieces bs ++ some a :: pieces bs' :=
  isPieces_iff.1 ((isPieces_iff.2 rfl).append hab (isPieces_iff.2 rfl))

/-- The character stands in the text where its byte stands. -/
theorem decodeLossy_append (bs bs' : List UInt8) :
    decodeLossy (bs ++ b :: bs') = decodeLossy bs ++ a :: decodeLossy bs' := by
  rw [decodeLossy, pieces_append hab, List.map_append, List.map_cons]
  rfl

/-- The strict reader fails with the byte behind exactly if it fails without. -/
theorem decode?_concat (bs : List UInt8) :
    decode? (bs ++ [b]) = (decode? bs).map (· ++ [a]) := by
  rw [decode?, decode?, pieces_append hab, List.mapM_append]
  cases (pieces bs).mapM id <;> rfl

theorem IsPieces.mem (h : IsPieces bs ps) (ha : some a ∈ ps) : b ∈ bs := by
  induction h with
  | nil => cases ha
  | char c h ih =>
    rw [List.mem_cons, Option.some.injEq] at ha
    rw [List.mem_append]
    refine ha.imp ?_ ih
    rintro rfl
    rw [hab]
    exact List.mem_singleton_self b
  | broken hrun h ih =>
    rw [List.mem_cons, or_iff_right (Option.some_ne_none a)] at ha
    exact List.mem_append_right _ (ih ha)

theorem ne_replacement : a ≠ '\uFFFD' := by
  rintro rfl
  have hlen := congrArg List.length hab
  rw [List.length_singleton] at hlen
  exact absurd hlen (by decide)

theorem mem_decodeLossy_iff : a ∈ decodeLossy bs ↔ b ∈ bs := by
  constructor
  · intro h
    rw [decodeLossy, List.mem_map] at h
    obtain ⟨p, hp, ha⟩ := h
    cases p with
    | none => exact absurd ha.symm (ne_replacement hab)
    | some c =>
      obtain rfl : c = a := ha
      exact (isPieces_iff.2 rfl).mem hab hp
  · intro h
    obtain ⟨xs, ys, rfl⟩ := List.append_of_mem h
    rw [decodeLossy_append hab]
    simp

/-- **Cutting and decoding commute.** -/
theorem segments_decodeLossy (bs : List UInt8) : segments a (decodeLossy bs) =
    (segments b bs).map fun s => ⟨decodeLossy s.items, s.ended⟩ := by
  induction bs using cut_induction b with
  | last xs hxs =>
    rw [segments_of_not_mem hxs, segments_of_not_mem ((mem_decodeLossy_iff hab).not.2 hxs)]
    by_cases hnil : xs = []
    · rw [if_pos hnil, if_pos (decodeLossy_eq_nil_iff.2 hnil), List.map_nil]
    · rw [if_neg hnil, if_neg (decodeLossy_eq_nil_iff.not.2 hnil), List.map_singleton]
  | ended xs ys hxs ih =>
    rw [decodeLossy_append hab, segments_append hxs,
      segments_append ((mem_decodeLossy_iff hab).not.2 hxs), ih, List.map_cons]

/-- The character is the last one if its byte is. -/
theorem getLast?_decodeLossy_iff (bs : List UInt8) :
    (decodeLossy bs).getLast? = some a ↔ bs.getLast? = some b := by
  induction bs using cut_induction b with
  | last xs hxs =>
    have hcs : a ∉ decodeLossy xs := (mem_decodeLossy_iff hab).not.2 hxs
    exact iff_of_false (fun h => hcs (List.mem_of_getLast? h)) fun h => hxs (List.mem_of_getLast? h)
  | ended xs ys hxs ih =>
    rw [decodeLossy_append hab, getLast?_append_cons_self_iff, getLast?_append_cons_self_iff,
      decodeLossy_eq_nil_iff, ih]

end OneByte

/-! ### Lines -/

/-- The bytes without one carriage return at their end. -/
def dropCrByte (bs : List UInt8) : List UInt8 :=
  if bs.getLast? = some 0x0D then bs.dropLast else bs

/-- The bytes of the line that a segment of bytes contributes, as for characters. -/
def lineOf (s : Segment UInt8) : List UInt8 :=
  if s.ended then dropCrByte s.items else s.items

theorem dropFinalCr_decodeLossy (bs : List UInt8) :
    dropFinalCr (decodeLossy bs) = decodeLossy (dropCrByte bs) := by
  have hcr : String.utf8EncodeChar '\r' = [0x0D] := by decide
  rw [dropCrByte]
  split_ifs with h
  · obtain ⟨xs, rfl⟩ := List.getLast?_eq_some_iff.1 h
    rw [List.dropLast_concat, decodeLossy_append hcr]
    exact dropFinalCr_append _
  · rw [dropFinalCr_eq_self_iff]
    exact (getLast?_decodeLossy_iff hcr bs).not.2 h

/-- **The lines of decoded bytes** are the decoded lines of the bytes. -/
theorem lines_decodeLossy (bs : List UInt8) :
    lines (decodeLossy bs) = (segments 0x0A bs).map fun s => decodeLossy (lineOf s) := by
  have hlf : String.utf8EncodeChar '\n' = [0x0A] := by decide
  rw [lines, segments_decodeLossy hlf, List.map_map]
  refine List.map_congr_left fun s _ => ?_
  rw [Function.comp_apply, Segment.line, lineOf, dropFinalCr_decodeLossy]
  split_ifs <;> rfl

end Reckoner.Text.Utf8
