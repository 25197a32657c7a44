import Mathlib.Data.List.Basic
import Mathlib.Tactic.SplitIfs
import Reckoner.Text.Utf8

/-!
# Reading what was written

The automaton gives every text back from its bytes (`pieces_encode`), so both readers do. Each
character is written as a first byte, which opens it with some of its bits, and bytes that owe six
bits each; the automaton takes up the same bits in the same order (`piecesFrom_owed`). So no
character is written with bytes that begin as another does (`encodeChar_append_inj`), and the byte
of a character that is written with one byte occurs in no other (`eq_of_mem_encodeChar`).
-/

namespace Reckoner.Text.Utf8

theorem encode_cons (c : Char) (cs : List Char) :
    encode (c :: cs) = String.utf8EncodeChar c ++ encode cs := rfl

theorem encode_append (cs ds : List Char) : encode (cs ++ ds) = encode cs ++ encode ds :=
  List.flatMap_append

/-- A byte that holds six of the bits of a character. -/
def tail (n : Nat) : UInt8 := UInt8.ofNat (n % 0x40 + 0x80)

theorem toNat_tail (n : Nat) : (tail n).toNat = n % 0x40 + 0x80 := by
  rw [tail, UInt8.toNat_ofNat']
  omega

/-- A byte with six bits is taken up if it lies in the range that is asked for. -/
theorem piecesFrom_owed (p : Partial) (n : Nat) (bs : List UInt8)
    (hlow : p.low ≤ n % 0x40 + 0x80) (hhigh : n % 0x40 + 0x80 ≤ p.high) :
    piecesFrom (some p) (tail n :: bs) = match p.later with
      | 0 => some (Char.ofNat (p.bits * 0x40 + n % 0x40)) :: piecesFrom none bs
      | k + 1 => piecesFrom (some ⟨k, 0x80, 0xBF, p.bits * 0x40 + n % 0x40⟩) bs := by
  have haccepts : p.accepts (tail n) = true := by
    rw [Partial.accepts, toNat_tail]
    simp [hlow, hhigh]
  have hextend : p.extend (tail n) = p.bits * 0x40 + n % 0x40 := by
    rw [Partial.extend, toNat_tail]
    omega
  rw [piecesFrom, step, if_pos haccepts, hextend]
  cases p.later <;> rfl

theorem piecesFrom_whole {b : UInt8} {c : Char} (h : lead b = .whole c) (bs : List UInt8) :
    piecesFrom none (b :: bs) = some c :: piecesFrom none bs := by
  rw [piecesFrom, step, begin, h]
  rfl

theorem piecesFrom_opens {b : UInt8} {p : Partial} (h : lead b = .opens p) (bs : List UInt8) :
    piecesFrom none (b :: bs) = piecesFrom (some p) bs := by
  rw [piecesFrom, step, begin, h]
  rfl

/-! ### First bytes -/

theorem lead_one {n : Nat} (h : n < 0x80) : lead (UInt8.ofNat n) = .whole (Char.ofNat n) := by
  have hn : (UInt8.ofNat n).toNat = n := UInt8.toNat_ofNat_of_lt' (by simp only [UInt8.size]; omega)
  rw [lead, hn, if_pos h]

theorem lead_two {n : Nat} (hlow : 2 ≤ n) (hhigh : n < 0x20) :
    lead (UInt8.ofNat (n + 0xC0)) = .opens ⟨0, 0x80, 0xBF, n⟩ := by
  have hn : (UInt8.ofNat (n + 0xC0)).toNat = n + 0xC0 :=
    UInt8.toNat_ofNat_of_lt' (by simp only [UInt8.size]; omega)
  have hbits : (n + 0xC0) % 0x20 = n := by omega
  rw [lead, hn, if_neg (by omega), if_neg (by omega), if_pos (by omega), hbits]

theorem lead_three {n : Nat} (h : n < 0x10) :
    lead (UInt8.ofNat (n + 0xE0)) =
      .opens ⟨1, if n = 0 then 0xA0 else 0x80, if n = 0xD then 0x9F else 0xBF, n⟩ := by
  have hn : (UInt8.ofNat (n + 0xE0)).toNat = n + 0xE0 :=
    UInt8.toNat_ofNat_of_lt' (by simp only [UInt8.size]; omega)
  have hbits : (n + 0xE0) % 0x10 = n := by omega
  have hfirst : n + 0xE0 = 0xE0 ↔ n = 0 := by omega
  have hsurrogates : n + 0xE0 = 0xED ↔ n = 0xD := by omega
  rw [lead, hn, if_neg (by omega), if_neg (by omega), if_neg (by omega), if_pos (by omega), hbits]
  simp only [hfirst, hsurrogates]

theorem lead_four {n : Nat} (h : n < 5) :
    lead (UInt8.ofNat (n + 0xF0)) =
      .opens ⟨2, if n = 0 then 0x90 else 0x80, if n = 4 then 0x8F else 0xBF, n⟩ := by
  have hn : (UInt8.ofNat (n + 0xF0)).toNat = n + 0xF0 :=
    UInt8.toNat_ofNat_of_lt' (by simp only [UInt8.size]; omega)
  have hbits : (n + 0xF0) % 0x08 = n := by omega
  have hfirst : n + 0xF0 = 0xF0 ↔ n = 0 := by omega
  have hlast : n + 0xF0 = 0xF4 ↔ n = 4 := by omega
  rw [lead, hn, if_neg (by omega), if_neg (by omega), if_neg (by omega), if_neg (by omega),
    if_pos (by omega), hbits]
  simp only [hfirst, hlast]

/-! ### Texts -/

/-- The automaton reads one character from its bytes. -/
theorem piecesFrom_encodeChar (c : Char) (bs : List UInt8) :
    piecesFrom none (String.utf8EncodeChar c ++ bs) = some c :: piecesFrom none bs := by
  have hvalid : c.toNat < 0xD800 ∨ 0xDFFF < c.toNat ∧ c.toNat < 0x110000 := c.valid
  have hc : Char.ofNat c.toNat = c := Char.ofNat_toNat c
  rw [String.utf8EncodeChar, Char.toNat_val]
  generalize c.toNat = v at hvalid hc
  split_ifs with h1 h2 h3
  · rw [List.singleton_append, piecesFrom_whole (lead_one (by omega)), hc]
  · have hbits : v / 0x40 % 0x20 = v / 0x40 := by omega
    have hv : v / 0x40 * 0x40 + v % 0x40 = v := by omega
    rw [hbits, List.cons_append, List.singleton_append,
      piecesFrom_opens (lead_two (by omega) (by omega)),
      ← tail, piecesFrom_owed _ _ _ (by dsimp only; omega) (by dsimp only; omega)]
    dsimp only
    rw [hv, hc]
  · -- Overlong forms and surrogates are excluded by the range for the second byte.
    have hbits : v / 0x1000 % 0x10 = v / 0x1000 := by omega
    have hv : (v / 0x1000 * 0x40 + v / 0x40 % 0x40) * 0x40 + v % 0x40 = v := by omega
    rw [hbits, List.cons_append, List.cons_append, List.singleton_append,
      piecesFrom_opens (lead_three (by omega)), ← tail, ← tail,
      piecesFrom_owed _ _ _ (by dsimp only; split_ifs <;> omega)
        (by dsimp only; split_ifs <;> omega)]
    dsimp only
    rw [piecesFrom_owed _ _ _ (by dsimp only; omega) (by dsimp only; omega)]
    dsimp only
    rw [hv, hc]
  · -- Overlong forms and values above the last character are excluded in the same way.
    have hbits : v / 0x40000 % 0x08 = v / 0x40000 := by omega
    have hv : ((v / 0x40000 * 0x40 + v / 0x1000 % 0x40) * 0x40 + v / 0x40 % 0x40) * 0x40 +
        v % 0x40 = v := by omega
    rw [hbits, List.cons_append, List.cons_append, List.cons_append, List.singleton_append,
      piecesFrom_opens (lead_four (by omega)), ← tail, ← tail, ← tail,
      piecesFrom_owed _ _ _ (by dsimp only; split_ifs <;> omega)
        (by dsimp only; split_ifs <;> omega)]
    dsimp only
    rw [piecesFrom_owed _ _ _ (by dsimp only; omega) (by dsimp only; omega)]
    dsimp only
    rw [piecesFrom_owed _ _ _ (by dsimp only; omega) (by dsimp only; omega)]
    dsimp only
    rw [hv, hc]

/-- No character is written with bytes that begin as another does. -/
theorem encodeChar_append_inj {c d : Char} {bs bs' : List UInt8}
    (h : String.utf8EncodeChar c ++ bs = String.utf8EncodeChar d ++ bs') : c = d ∧ bs = bs' := by
  have hread := congrArg (piecesFrom none) h
  rw [piecesFrom_encodeChar, piecesFrom_encodeChar, List.cons.injEq, Option.some.injEq] at hread
  obtain ⟨rfl, -⟩ := hread
  exact ⟨rfl, List.append_cancel_left h⟩

theorem encodeChar_ne_nil (c : Char) : String.utf8EncodeChar c ≠ [] := by
  rw [← List.length_pos_iff, String.length_utf8EncodeChar]
  exact c.utf8Size_pos

/-- The automaton gives a text back from its bytes. -/
theorem pieces_encode (cs : List Char) : pieces (encode cs) = cs.map some := by
  induction cs with
  | nil => rfl
  | cons c cs ih =>
    rw [pieces] at ih
    rw [encode_cons, pieces, piecesFrom_encodeChar, ih, List.map_cons]

theorem mapM_id_eq_some_iff {ps : List (Option Char)} {cs : List Char} :
    ps.mapM id = some cs ↔ ps = cs.map some := by
  induction ps generalizing cs with
  | nil => cases cs <;> simp
  | cons p ps ih =>
    simp only [List.mapM_cons, id_eq, Option.bind_eq_bind, Option.bind_eq_some_iff,
      Option.pure_def, Option.some.injEq, ih]
    cases cs with
    | nil => simp
    | cons c cs => simp

/-- The strict reader gives every text back. -/
@[simp]
theorem decode?_encode (cs : List Char) : decode? (encode cs) = some cs := by
  rw [decode?, pieces_encode, mapM_id_eq_some_iff]

/-- The lenient reader gives every text back. -/
@[simp]
theorem decodeLossy_encode (cs : List Char) : decodeLossy (encode cs) = cs := by
  rw [decodeLossy, pieces_encode, List.map_map]
  exact List.map_id cs

/-! ### Characters of one byte -/

section OneByte

variable {a c : Char} {b : UInt8}

theorem lt_of_encodeChar (h : String.utf8EncodeChar a = [b]) : b.toNat < 0x80 := by
  rw [String.utf8EncodeChar, Char.toNat_val] at h
  generalize a.toNat = v at h
  split_ifs at h with h1
  · obtain rfl := List.singleton_inj.1 h
    rw [UInt8.toNat_ofNat_of_lt' (by simp only [UInt8.size]; omega)]
    omega
  all_goals cases h

theorem ofNat_ne {n : Nat} (h : 0x80 ≤ n) (hn : n < 0x100) (hb : b.toNat < 0x80) :
    b ≠ UInt8.ofNat n := by
  rintro rfl
  rw [UInt8.toNat_ofNat_of_lt' hn] at hb
  omega

/-- No other character is written with the byte. -/
theorem eq_of_mem_encodeChar (hab : String.utf8EncodeChar a = [b])
    (h : b ∈ String.utf8EncodeChar c) : c = a := by
  have hb := lt_of_encodeChar hab
  suffices hc : String.utf8EncodeChar c ++ [] = String.utf8EncodeChar a ++ [] from
    (encodeChar_append_inj hc).1
  rw [hab]
  rw [String.utf8EncodeChar, Char.toNat_val] at h ⊢
  generalize c.toNat = v at h
  -- Every byte of a longer character is at least 0x80.
  split_ifs at h ⊢ with h1
  · rw [List.mem_singleton.1 h]
  all_goals simp only [List.mem_cons, List.not_mem_nil, or_false] at h
  · rcases h with h | h <;> exact absurd h (ofNat_ne (by omega) (by omega) hb)
  · rcases h with h | h | h <;> exact absurd h (ofNat_ne (by omega) (by omega) hb)
  · rcases h with h | h | h | h <;> exact absurd h (ofNat_ne (by omega) (by omega) hb)

theorem not_mem_encode {cs : List Char} (hab : String.utf8EncodeChar a = [b]) (h : a ∉ cs) :
    b ∉ encode cs := by
  intro hmem
  obtain ⟨c, hc, hb⟩ := List.mem_flatMap.1 hmem
  rw [eq_of_mem_encodeChar hab hb] at hc
  exact h hc

end OneByte

end Reckoner.Text.Utf8
