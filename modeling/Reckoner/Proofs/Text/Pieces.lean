import Reckoner.Proofs.Text.Utf8

/-!
# What the automaton finds

The pieces of a byte sequence have a description that does not mention the automaton (`IsPieces`). A
character is found where its bytes stand. Where no character stands, the bytes are one broken run as
far as they begin some character, and a byte that begins none is a run by itself. The description
has exactly one solution, because no character is written with bytes that begin as another does, and
the automaton finds it (`isPieces_iff`).

The automaton is followed through a character (`Partial.Follows`): the bits it remembers and the
range for the next byte tell which characters begin with what it has read, and there is one, so it
goes on exactly as long as some character does.
-/

namespace Reckoner.Text.Utf8

/-! ### The description -/

/-- Some character is written with bytes that begin so. -/
def Begins (run : List UInt8) : Prop := ∃ c : Char, run <+: String.utf8EncodeChar c

/-- The bytes `run`, with `rest` behind them, are one broken run. -/
structure Broken (run rest : List UInt8) : Prop where
  ne_nil : run ≠ []
  /-- No character stands here. -/
  unconvertible : ∀ c, ¬ String.utf8EncodeChar c <+: run ++ rest
  /-- It is a byte by itself or the beginning of a character. -/
  begins : run.length = 1 ∨ Begins run
  /-- The next byte does not go on with that character. -/
  maximal : ∀ b ∈ rest.head?, ¬ Begins (run ++ [b])

/-- The characters, and `none` for each broken run, of a byte sequence. -/
inductive IsPieces : List UInt8 → List (Option Char) → Prop
  | nil : IsPieces [] []
  | char (c : Char) {bs : List UInt8} {ps : List (Option Char)} (h : IsPieces bs ps) :
    IsPieces (String.utf8EncodeChar c ++ bs) (some c :: ps)
  | broken {run bs : List UInt8} {ps : List (Option Char)} (hrun : Broken run bs)
    (h : IsPieces bs ps) : IsPieces (run ++ bs) (none :: ps)

variable {p : Partial} {run run' rest rest' bs bs' : List UInt8} {b : UInt8}
  {ps qs : List (Option Char)}

theorem Begins.of_prefix (h : Begins run) (hp : run' <+: run) : Begins run' := by
  obtain ⟨c, hc⟩ := h
  exact ⟨c, hp.trans hc⟩

/-- Of two broken runs at the same place neither is longer. -/
theorem Broken.length_le (h : Broken run rest) (h' : Broken run' rest')
    (heq : run ++ rest = run' ++ rest') : run.length ≤ run'.length := by
  by_contra hlt
  rw [Nat.not_le] at hlt
  obtain ⟨more, rfl⟩ : run' <+: run :=
    List.prefix_of_prefix_length_le ⟨rest', heq.symm⟩ ⟨rest, rfl⟩ (Nat.le_of_lt hlt)
  rw [List.append_assoc, List.append_cancel_left_eq] at heq
  cases more with
  | nil => simp at hlt
  | cons b more =>
    -- the shorter run could go on with the next byte of the longer one
    have hlong : Begins (run' ++ b :: more) := by
      refine h.begins.resolve_left fun hone => ?_
      have hpos := List.length_pos_iff.2 h'.ne_nil
      rw [List.length_append, List.length_cons] at hone
      omega
    refine h'.maximal b ?_ (hlong.of_prefix ⟨more, by simp⟩)
    rw [← heq]
    rfl

theorem Broken.run_eq (h : Broken run rest) (h' : Broken run' rest')
    (heq : run ++ rest = run' ++ rest') : run = run' :=
  List.append_inj_left heq (Nat.le_antisymm (h.length_le h' heq) (h'.length_le h heq.symm))

/-- The description has at most one solution. -/
theorem IsPieces.unique (h : IsPieces bs ps) (h' : IsPieces bs qs) : ps = qs := by
  induction h generalizing qs with
  | nil =>
    generalize hbs : [] = bs' at h'
    cases h' with
    | nil => rfl
    | char c h' => exact absurd (List.append_eq_nil_iff.1 hbs.symm).1 (encodeChar_ne_nil c)
    | broken hrun h' => exact absurd (List.append_eq_nil_iff.1 hbs.symm).1 hrun.ne_nil
  | @char c bs ps h ih =>
    generalize hbs : String.utf8EncodeChar c ++ bs = bs' at h'
    cases h' with
    | nil => exact absurd (List.append_eq_nil_iff.1 hbs).1 (encodeChar_ne_nil c)
    | char d h' =>
      obtain ⟨rfl, rfl⟩ := encodeChar_append_inj hbs
      rw [ih h']
    | broken hrun h' => exact absurd ⟨_, hbs⟩ (hrun.unconvertible c)
  | @broken run bs ps hrun h ih =>
    generalize hbs : run ++ bs = bs' at h'
    cases h' with
    | nil => exact absurd (List.append_eq_nil_iff.1 hbs).1 hrun.ne_nil
    | char d h' => exact absurd ⟨_, hbs.symm⟩ (hrun.unconvertible d)
    | broken hrun' h' =>
      obtain rfl := hrun.run_eq hrun' hbs
      obtain rfl := List.append_cancel_left hbs
      rw [ih h']

/-! ### Within a character -/

/-- What is left of a number when `k` groups of six bits are taken off its end. -/
def above : Nat → Nat → Nat
  | 0, v => v
  | k + 1, v => above k v / 0x40

/-- The bytes for the last `k` groups of six bits. -/
def owed : Nat → Nat → List UInt8
  | 0, _ => []
  | k + 1, v => tail (above k v) :: owed k v

theorem exists_above_eq (k w : Nat) : ∃ v, above k v = w := by
  induction k generalizing w with
  | zero => exact ⟨w, rfl⟩
  | succ k ih =>
    obtain ⟨v, hv⟩ := ih (w * 0x40)
    refine ⟨v, ?_⟩
    rw [above, hv]
    omega

theorem exists_toNat_eq {v : Nat} (h : v < 0xD800 ∨ 0xDFFF < v ∧ v < 0x110000) :
    ∃ c : Char, c.toNat = v :=
  ⟨Char.ofNatAux v h, rfl⟩

/-- The automaton has read `run` and is within a character: `run` is how every character begins
whose bits go on from the bits read so far and whose next byte lies in the range. -/
structure Partial.Follows (p : Partial) (run : List UInt8) : Prop where
  ne_nil : run ≠ []
  /-- The range holds bytes with six bits only. -/
  low : 0x80 ≤ p.low
  /-- The range is not empty. -/
  low_le_high : p.low ≤ p.high
  high : p.high ≤ 0xBF
  /-- The automaton was at rest before. -/
  reads : ∀ bs, piecesFrom none (run ++ bs) = piecesFrom (some p) bs
  /-- The bytes owed are those for the bits that are missing. -/
  written : ∀ v, above (p.later + 1) v = p.bits → p.low ≤ above p.later v % 0x40 + 0x80 →
    above p.later v % 0x40 + 0x80 ≤ p.high →
    ∃ c : Char, c.toNat = v ∧ String.utf8EncodeChar c = run ++ owed (p.later + 1) v

/-! A first byte opens the characters of its length. What the range for the second byte excludes is
not a character of that length. -/

theorem follows_two {n : Nat} (hlow : 2 ≤ n) (hhigh : n < 0x20) :
    (⟨0, 0x80, 0xBF, n⟩ : Partial).Follows [UInt8.ofNat (n + 0xC0)] where
  ne_nil := List.cons_ne_nil _ _
  low := Nat.le_refl _
  low_le_high := by simp
  high := Nat.le_refl _
  reads := piecesFrom_opens (lead_two hlow hhigh)
  written := by
    simp only [above, owed]
    rintro v rfl - -
    obtain ⟨c, rfl⟩ := exists_toNat_eq (v := v) (by omega)
    refine ⟨c, rfl, ?_⟩
    have hbits : c.toNat / 0x40 % 0x20 = c.toNat / 0x40 := by omega
    rw [String.utf8EncodeChar, Char.toNat_val, if_neg (by omega), if_pos (by omega), hbits]
    rfl

theorem follows_three {n : Nat} (h : n < 0x10) :
    (⟨1, if n = 0 then 0xA0 else 0x80, if n = 0xD then 0x9F else 0xBF, n⟩ : Partial).Follows
      [UInt8.ofNat (n + 0xE0)] where
  ne_nil := List.cons_ne_nil _ _
  low := by dsimp only; split_ifs <;> omega
  low_le_high := by dsimp only; split_ifs <;> omega
  high := by dsimp only; split_ifs <;> omega
  reads := piecesFrom_opens (lead_three h)
  written := by
    simp only [above, owed]
    rintro v rfl hlow hhigh
    have hvalid : 0x800 ≤ v ∧ (v < 0xD800 ∨ 0xDFFF < v ∧ v < 0x10000) := by
      split_ifs at hlow hhigh <;> omega
    clear hlow hhigh
    obtain ⟨c, rfl⟩ := exists_toNat_eq (v := v) (by omega)
    refine ⟨c, rfl, ?_⟩
    have hbits : c.toNat / 0x1000 % 0x10 = c.toNat / 0x40 / 0x40 := by omega
    rw [String.utf8EncodeChar, Char.toNat_val, if_neg (by omega), if_neg (by omega),
      if_pos (by omega), hbits]
    rfl

theorem follows_four {n : Nat} (h : n < 5) :
    (⟨2, if n = 0 then 0x90 else 0x80, if n = 4 then 0x8F else 0xBF, n⟩ : Partial).Follows
      [UInt8.ofNat (n + 0xF0)] where
  ne_nil := List.cons_ne_nil _ _
  low := by dsimp only; split_ifs <;> omega
  low_le_high := by dsimp only; split_ifs <;> omega
  high := by dsimp only; split_ifs <;> omega
  reads := piecesFrom_opens (lead_four h)
  written := by
    simp only [above, owed]
    rintro v rfl hlow hhigh
    have hvalid : 0x10000 ≤ v ∧ v < 0x110000 := by split_ifs at hlow hhigh <;> omega
    clear hlow hhigh
    obtain ⟨c, rfl⟩ := exists_toNat_eq (v := v) (by omega)
    refine ⟨c, rfl, ?_⟩
    have hbits : c.toNat / 0x40000 % 0x08 = c.toNat / 0x40 / 0x40 / 0x40 := by omega
    have hsecond : c.toNat / 0x1000 = c.toNat / 0x40 / 0x40 := by omega
    rw [String.utf8EncodeChar, Char.toNat_val, if_neg (by omega), if_neg (by omega),
      if_neg (by omega), hbits, hsecond]
    rfl

/-- A byte is a character, the first of a longer character or neither. -/
theorem lead_cases (b : UInt8) :
    (∃ c, lead b = .whole c ∧ String.utf8EncodeChar c = [b]) ∨
      (∃ p, lead b = .opens p ∧ p.Follows [b]) ∨ lead b = .never := by
  obtain ⟨n, hn, rfl⟩ : ∃ n < 0x100, b = UInt8.ofNat n :=
    ⟨b.toNat, b.toNat_lt, UInt8.ofNat_toNat.symm⟩
  by_cases h1 : n < 0x80
  · obtain ⟨c, rfl⟩ := exists_toNat_eq (v := n) (by omega)
    refine .inl ⟨c, by rw [lead_one h1, Char.ofNat_toNat], ?_⟩
    rw [String.utf8EncodeChar, Char.toNat_val, if_pos (by omega)]
  by_cases h2 : n < 0xC2
  · refine .inr (.inr ?_)
    rw [lead, UInt8.toNat_ofNat_of_lt' hn, if_neg h1, if_pos h2]
  by_cases h3 : n < 0xE0
  · obtain ⟨k, rfl⟩ := Nat.exists_eq_add_of_le' (show 0xC0 ≤ n by omega)
    exact .inr (.inl ⟨_, lead_two (by omega) (by omega), follows_two (by omega) (by omega)⟩)
  by_cases h4 : n < 0xF0
  · obtain ⟨k, rfl⟩ := Nat.exists_eq_add_of_le' (Nat.not_lt.1 h3)
    exact .inr (.inl ⟨_, lead_three (by omega), follows_three (by omega)⟩)
  by_cases h5 : n < 0xF5
  · obtain ⟨k, rfl⟩ := Nat.exists_eq_add_of_le' (Nat.not_lt.1 h4)
    exact .inr (.inl ⟨_, lead_four (by omega), follows_four (by omega)⟩)
  refine .inr (.inr ?_)
  rw [lead, UInt8.toNat_ofNat_of_lt' hn, if_neg h1, if_neg h2, if_neg h3, if_neg h4, if_neg h5]

namespace Partial.Follows

/-- A byte in the range holds the next six bits. -/
theorem eq_tail (hp : p.Follows run) (hb : p.accepts b = true) : b = tail (p.extend b) := by
  rw [Partial.accepts, Bool.and_eq_true, decide_eq_true_eq, decide_eq_true_eq] at hb
  have hlow := hp.low
  have hhigh := hp.high
  have hbits : p.extend b % 0x40 + 0x80 = b.toNat := by
    rw [Partial.extend]
    omega
  rw [tail, hbits, UInt8.ofNat_toNat]

/-- With a byte in the range the characters begin that go on from the bits with it. -/
theorem written_of_accepts (hp : p.Follows run) (hb : p.accepts b = true) {v : Nat}
    (hv : above p.later v = p.extend b) :
    ∃ c : Char, c.toNat = v ∧ String.utf8EncodeChar c = run ++ b :: owed p.later v := by
  have htail := hp.eq_tail hb
  have hnat : b.toNat = p.extend b % 0x40 + 0x80 := by
    rw [← toNat_tail, ← htail]
  have hbits : above (p.later + 1) v = p.bits := by
    rw [above, hv, Partial.extend]
    omega
  rw [Partial.accepts, Bool.and_eq_true, decide_eq_true_eq, decide_eq_true_eq, hnat, ← hv] at hb
  obtain ⟨c, hc, hwritten⟩ := hp.written v hbits hb.1 hb.2
  exact ⟨c, hc, by rw [hwritten, owed, hv, ← htail]⟩

/-- The last byte completes the character of the bits. -/
theorem encodeChar_of_accepts (hp : p.Follows run) (hb : p.accepts b = true)
    (hlater : p.later = 0) : String.utf8EncodeChar (Char.ofNat (p.extend b)) = run ++ [b] := by
  obtain ⟨c, hc, hwritten⟩ := hp.written_of_accepts hb (v := p.extend b) (by rw [hlater, above])
  rw [← hc, Char.ofNat_toNat, hwritten, hlater, owed]

/-- Any other byte in the range leads on within the character. -/
theorem next (hp : p.Follows run) (hb : p.accepts b = true) {k : Nat} (hlater : p.later = k + 1) :
    (⟨k, 0x80, 0xBF, p.extend b⟩ : Partial).Follows (run ++ [b]) where
  ne_nil := by simp
  low := Nat.le_refl _
  low_le_high := by simp
  high := Nat.le_refl _
  reads bs := by
    rw [List.append_assoc, List.singleton_append, hp.reads, piecesFrom, step, if_pos hb, hlater]
    rfl
  written v hv _ _ := by
    obtain ⟨c, hc, hwritten⟩ := hp.written_of_accepts hb (v := v) (by rw [hlater]; exact hv)
    refine ⟨c, hc, ?_⟩
    rw [hwritten, hlater, List.append_assoc, List.singleton_append]

/-- What has been read is the beginning of a character. -/
theorem begins (hp : p.Follows run) : Begins run := by
  have hlow := hp.low
  have hhigh := hp.high
  have hrange := hp.low_le_high
  obtain ⟨b, hb⟩ : ∃ b, p.accepts b = true := by
    refine ⟨UInt8.ofNat p.low, ?_⟩
    rw [Partial.accepts, UInt8.toNat_ofNat_of_lt' (by simp only [UInt8.size]; omega)]
    simp [hrange]
  obtain ⟨v, hv⟩ := exists_above_eq p.later (p.extend b)
  obtain ⟨c, -, hwritten⟩ := hp.written_of_accepts hb hv
  exact ⟨c, _, hwritten.symm⟩

end Partial.Follows

/-! ### What is found -/

theorem piecesFrom_rejected (h : ¬ p.accepts b = true) (bs : List UInt8) :
    piecesFrom (some p) (b :: bs) = none :: piecesFrom none (b :: bs) := by
  rw [piecesFrom, step, if_neg h]
  rfl

theorem piecesFrom_never (h : lead b = .never) (bs : List UInt8) :
    piecesFrom none (b :: bs) = none :: piecesFrom none bs := by
  rw [piecesFrom, step, begin, h]
  rfl

/-- No character stands where the automaton finds a broken run. -/
theorem not_encodeChar_prefix (h : piecesFrom none bs = none :: ps) (c : Char) :
    ¬ String.utf8EncodeChar c <+: bs := by
  rintro ⟨rest, rfl⟩
  rw [piecesFrom_encodeChar] at h
  cases h

/-- No character begins with bytes that the automaton always finds broken. -/
theorem not_begins (h : ∀ bs, ∃ ps, piecesFrom none (run ++ bs) = none :: ps) : ¬ Begins run := by
  rintro ⟨c, rest, hc⟩
  obtain ⟨ps, hps⟩ := h rest
  exact not_encodeChar_prefix hps c ⟨[], by rw [List.append_nil, hc]⟩

/-- A byte with which no character begins is a broken run. -/
theorem broken_of_never (h : lead b = .never) (bs : List UInt8) : Broken [b] bs where
  ne_nil := List.cons_ne_nil _ _
  unconvertible := not_encodeChar_prefix (piecesFrom_never h bs)
  begins := .inl rfl
  maximal d _ := not_begins fun bs => ⟨_, piecesFrom_never h (d :: bs)⟩

/-- The beginning of a character is a broken run at the end of the bytes. -/
theorem Partial.Follows.broken_nil (hp : p.Follows run) : Broken run [] where
  ne_nil := hp.ne_nil
  unconvertible := not_encodeChar_prefix (hp.reads [])
  begins := .inr hp.begins
  maximal := by simp

/-- The beginning of a character is a broken run before a byte that is rejected. -/
theorem Partial.Follows.broken_cons (hp : p.Follows run) (hb : ¬ p.accepts b = true)
    (bs : List UInt8) : Broken run (b :: bs) where
  ne_nil := hp.ne_nil
  unconvertible :=
    not_encodeChar_prefix ((hp.reads (b :: bs)).trans (piecesFrom_rejected hb bs))
  begins := .inr hp.begins
  maximal d hd := by
    obtain rfl : b = d := by simpa using hd
    refine not_begins fun bs => ⟨piecesFrom none (b :: bs), ?_⟩
    rw [List.append_assoc, List.singleton_append, hp.reads, piecesFrom_rejected hb]

/-- From either state the automaton finds the pieces of what it has read and is still to read. -/
theorem isPieces_piecesFrom (bs : List UInt8) : IsPieces bs (piecesFrom none bs) ∧
    ∀ p run, Partial.Follows p run → IsPieces (run ++ bs) (piecesFrom (some p) bs) := by
  induction bs with
  | nil => exact ⟨.nil, fun p run hp => .broken hp.broken_nil .nil⟩
  | cons b bs ih =>
    obtain ⟨hrest, hwithin⟩ := ih
    have hnone : IsPieces (b :: bs) (piecesFrom none (b :: bs)) := by
      obtain ⟨c, hlead, hc⟩ | ⟨p, hlead, hp⟩ | hlead := lead_cases b
      · rw [piecesFrom_whole hlead, ← List.singleton_append, ← hc]
        exact .char c hrest
      · rw [piecesFrom_opens hlead]
        exact hwithin p [b] hp
      · rw [piecesFrom_never hlead]
        exact .broken (broken_of_never hlead bs) hrest
    refine ⟨hnone, fun p run hp => ?_⟩
    by_cases hb : p.accepts b = true
    · rw [piecesFrom, step, if_pos hb, ← List.singleton_append, ← List.append_assoc]
      cases hlater : p.later with
      | zero =>
        rw [← hp.encodeChar_of_accepts hb hlater]
        exact .char _ hrest
      | succ k => exact hwithin _ _ (hp.next hb hlater)
    · -- the byte that is rejected is read again from the beginning
      rw [piecesFrom_rejected hb]
      exact .broken (hp.broken_cons hb bs) hnone

/-- **The automaton finds the characters and the broken runs** that the description asks for. -/
theorem isPieces_iff : IsPieces bs ps ↔ pieces bs = ps := by
  have hfound := (isPieces_piecesFrom bs).1
  exact ⟨hfound.unique, fun h => h ▸ hfound⟩

end Reckoner.Text.Utf8
