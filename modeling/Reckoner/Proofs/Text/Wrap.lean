import Mathlib.Data.List.Forall2
import Reckoner.Proofs.Text.Unwords
import Reckoner.Text.Wrap

/-!
# Wrapped text

A wrapped text is looked at as a *layout*: lines that are lists of pieces, each piece a word or a
chunk of one. The layout is filled in the same way as the lines, and printing each of its lines with
single spaces gives them (`wrap_eq_map_fill`). So what has to be said about lines is said about
lists of pieces: the pieces are the words in order, only those too wide being cut (`flatten_fill`),
and every line fits (`fits_of_mem_fill`).

The layout is greedy. A line that fits is filled again with its own pieces and nothing is left over
(`fill_eq_singleton`), and a piece opens a line only if it was too wide for the one before
(`exists_fill_eq`).

None of this depends on a table of widths. It holds for every `Measure`: what matters is that widths
add up, that a character is at most as wide as the cutting of long words takes it to be, and that a
space takes up one column.
-/

namespace Reckoner.Text

variable {m : Measure} {limit n : Nat} {c : Char} {cs w chunk u v line word : List Char}
  {us vs ws pieces : List (List Char)}

/-! ### Chunks -/

theorem flatten_chunksFrom (limit : Nat) (chunk : List Char) (n : Nat) (cs : List Char) :
    (m.chunksFrom limit chunk n cs).flatten = chunk ++ cs := by
  induction cs generalizing chunk n with
  | nil =>
    rw [Measure.chunksFrom]
    split_ifs with h
    · rw [h]
      rfl
    · exact List.flatten_singleton.trans (List.append_nil chunk).symm
  | cons c cs ih =>
    rw [Measure.chunksFrom]
    split_ifs with h
    · rw [ih, h]
      rfl
    · rw [List.flatten_cons, ih]
      rfl
    · rw [ih, List.append_assoc]
      rfl

/-- Nothing of a word is lost when it is cut. -/
theorem flatten_chunks (limit : Nat) (word : List Char) : (m.chunks limit word).flatten = word :=
  flatten_chunksFrom limit [] 0 word

theorem ne_nil_of_mem_chunksFrom (h : w ∈ m.chunksFrom limit chunk n cs) : w ≠ [] := by
  induction cs generalizing chunk n with
  | nil =>
    rw [Measure.chunksFrom] at h
    split_ifs at h with hchunk
    · cases h
    · rwa [List.mem_singleton.1 h]
  | cons c cs ih =>
    rw [Measure.chunksFrom] at h
    split_ifs at h with hchunk
    · exact ih h
    · obtain rfl | h := List.mem_cons.1 h
      · exact hchunk
      · exact ih h
    · exact ih h

/-- A chunk of a word is a word. -/
theorem isWord_of_mem_chunks (hword : IsWord word) (h : w ∈ m.chunks limit word) : IsWord w where
  ne_nil := ne_nil_of_mem_chunksFrom h
  not_blank c hc := by
    refine hword.not_blank c ?_
    rw [← flatten_chunks limit word]
    exact List.mem_flatten_of_mem h hc

/-- What may stand on a line by itself: what is no wider than the line, or a single character. -/
def Measure.Fits (m : Measure) (limit : Nat) (cs : List Char) : Prop :=
  m.width cs ≤ limit ∨ ∃ c, cs = [c]

/-- The width that is counted for a chunk is at least its width. -/
theorem fits_of_mem_chunksFrom (hwidth : m.width chunk ≤ n)
    (hchunk : n ≤ limit ∨ ∃ c, chunk = [c]) (h : w ∈ m.chunksFrom limit chunk n cs) :
    m.Fits limit w := by
  induction cs generalizing chunk n with
  | nil =>
    rw [Measure.chunksFrom] at h
    split_ifs at h
    · cases h
    · rw [List.mem_singleton.1 h]
      exact hchunk.imp_left hwidth.trans
  | cons c cs ih =>
    have hsingle (h : w ∈ m.chunksFrom limit [c] (m.wide c) cs) : m.Fits limit w :=
      ih (m.narrow_le_wide c) (.inr ⟨c, rfl⟩) h
    rw [Measure.chunksFrom] at h
    split_ifs at h with hnil hlimit
    · exact hsingle h
    · obtain rfl | h := List.mem_cons.1 h
      · exact hchunk.imp_left hwidth.trans
      · exact hsingle h
    · have hle : n + m.wide c ≤ limit := Nat.le_of_not_lt hlimit
      have hwidth' : m.width (chunk ++ [c]) ≤ n + m.wide c := by
        rw [m.width_append]
        exact Nat.add_le_add hwidth (m.narrow_le_wide c)
      exact ih hwidth' (.inl hle) h

theorem fits_of_mem_chunks (h : w ∈ m.chunks limit word) : m.Fits limit w :=
  fits_of_mem_chunksFrom (Nat.le_refl 0) (.inl (Nat.zero_le _)) h

/-! ### Layouts -/

/-- The pieces that a word is laid out in. -/
def Measure.parts (m : Measure) (limit : Nat) (word : List Char) : List (List Char) :=
  if limit < m.width word then m.chunks limit word else [word]

/-- A line by itself, unless it is empty. -/
def whole (pieces : List (List Char)) : List (List (List Char)) :=
  if pieces = [] then [] else [pieces]

/-- Lay out words, behind the pieces of a line that has been begun. -/
def Measure.fill (m : Measure) (limit : Nat) (pieces : List (List Char)) :
    List (List Char) → List (List (List Char))
  | [] => whole pieces
  | word :: words =>
    if limit < m.width word then
      whole pieces ++ (m.chunks limit word).map ([·]) ++ m.fill limit [] words
    else if pieces ≠ [] ∧ limit < m.width (unwords (pieces ++ [word])) then
      pieces :: m.fill limit [word] words
    else m.fill limit (pieces ++ [word]) words

theorem width_cons_space (cs : List Char) : m.width (' ' :: cs) = 1 + m.width cs := by
  rw [Measure.width, m.narrow_of_printable ' ' (by decide) (by decide)]

/-- A piece that is put behind others takes up its width and a space. -/
theorem width_unwords_concat (hnil : pieces ≠ []) (word : List Char) :
    m.width (unwords (pieces ++ [word])) = m.width (unwords pieces) + 1 + m.width word := by
  rw [unwords_concat hnil, m.width_append, width_cons_space, Nat.add_assoc]

theorem unwords_eq_nil_iff (h : ∀ w ∈ ws, IsWord w) : unwords ws = [] ↔ ws = [] := by
  refine ⟨fun hnil => ?_, fun hnil => by rw [hnil]; rfl⟩
  by_contra hne
  exact (tidy_unwords hne h).ne_nil hnil

theorem map_unwords_whole (h : ∀ w ∈ pieces, IsWord w) :
    (whole pieces).map unwords = if unwords pieces = [] then [] else [unwords pieces] := by
  rw [whole]
  simp only [unwords_eq_nil_iff h]
  split_ifs <;> rfl

theorem map_unwords_singletons (ws : List (List Char)) : (ws.map ([·])).map unwords = ws := by
  rw [List.map_map]
  exact (List.map_congr_left fun w _ => unwords_singleton w).trans (List.map_id ws)

/-- Lines are filled as their layout is. -/
theorem wrapFrom_eq_map_fill (hpieces : ∀ w ∈ pieces, IsWord w) (hws : ∀ w ∈ ws, IsWord w) :
    m.wrapFrom limit (unwords pieces) (m.width (unwords pieces)) ws =
      (m.fill limit pieces ws).map unwords := by
  induction ws generalizing pieces with
  | nil => exact (map_unwords_whole hpieces).symm
  | cons word ws ih =>
    obtain ⟨hword, hws⟩ := List.forall_mem_cons.1 hws
    -- the word begins a line
    have hbegun : m.wrapFrom limit word (m.width word) ws =
        (m.fill limit [word] ws).map unwords := by
      have h := ih (List.forall_mem_singleton.2 hword) hws
      rwa [unwords_singleton] at h
    rw [Measure.wrapFrom, Measure.fill]
    by_cases hlimit : limit < m.width word
    · have hrest : m.wrapFrom limit [] 0 ws = (m.fill limit [] ws).map unwords :=
        ih (List.forall_mem_nil _) hws
      rw [if_pos hlimit, if_pos hlimit, ← map_unwords_whole hpieces, hrest, List.map_append,
        List.map_append, map_unwords_singletons]
    · rw [if_neg hlimit, if_neg hlimit]
      by_cases hnil : pieces = []
      · rw [if_pos ((unwords_eq_nil_iff hpieces).2 hnil), if_neg fun h => h.1 hnil, hbegun, hnil]
        rfl
      · -- both compare the width with the word behind the line
        have htoo : (pieces ≠ [] ∧ limit < m.width (unwords (pieces ++ [word]))) ↔
            limit < m.width (unwords pieces) + m.width word + 1 := by
          rw [width_unwords_concat hnil, Nat.add_right_comm]
          exact and_iff_right hnil
        rw [if_neg fun h => hnil ((unwords_eq_nil_iff hpieces).1 h)]
        simp only [htoo]
        split_ifs
        · rw [hbegun]
          rfl
        · rw [← unwords_concat hnil, ← width_unwords_concat hnil]
          exact ih (List.forall_mem_append.2 ⟨hpieces, List.forall_mem_singleton.2 hword⟩) hws

/-- The lines of a text are those of its layout. -/
theorem wrap_eq_map_fill (h : 0 < limit) (cs : List Char) :
    m.wrap limit cs = (m.fill limit [] (words cs)).map unwords := by
  rw [Measure.wrap, if_neg h.ne']
  exact wrapFrom_eq_map_fill (List.forall_mem_nil _) fun w hw => isWord_of_mem_words hw

/-! ### The pieces of a layout -/

theorem flatten_parts (limit : Nat) (word : List Char) : (m.parts limit word).flatten = word := by
  rw [Measure.parts]
  split_ifs
  · exact flatten_chunks limit word
  · exact List.flatten_singleton

theorem parts_of_width_le (h : m.width word ≤ limit) : m.parts limit word = [word] :=
  if_neg (Nat.not_lt.2 h)

theorem flatten_flatMap_parts (limit : Nat) (ws : List (List Char)) :
    (ws.flatMap (m.parts limit)).flatten = ws.flatten := by
  induction ws with
  | nil => rfl
  | cons word ws ih =>
    rw [List.flatMap_cons, List.flatten_append, flatten_parts, ih, List.flatten_cons]

theorem isWord_of_mem_parts (hword : IsWord word) (h : w ∈ m.parts limit word) : IsWord w := by
  rw [Measure.parts] at h
  split_ifs at h
  · exact isWord_of_mem_chunks hword h
  · rwa [List.mem_singleton.1 h]

theorem flatten_whole (pieces : List (List Char)) : (whole pieces).flatten = pieces := by
  rw [whole]
  split_ifs with h
  · exact h.symm
  · exact List.flatten_singleton

theorem flatten_singletons (ws : List (List Char)) : (ws.map ([·])).flatten = ws := by
  rw [← List.flatMap_def, List.flatMap_singleton']

/-- Nothing is lost in a layout, and nothing changes its place. -/
theorem flatten_fill (limit : Nat) (pieces ws : List (List Char)) :
    (m.fill limit pieces ws).flatten = pieces ++ ws.flatMap (m.parts limit) := by
  induction ws generalizing pieces with
  | nil => exact (flatten_whole pieces).trans (List.append_nil pieces).symm
  | cons word ws ih =>
    rw [Measure.fill, List.flatMap_cons]
    by_cases hlimit : limit < m.width word
    · rw [if_pos hlimit, Measure.parts, if_pos hlimit, List.flatten_append, List.flatten_append,
        flatten_whole, flatten_singletons, ih, List.append_assoc]
      rfl
    · rw [if_neg hlimit, parts_of_width_le (Nat.not_lt.1 hlimit)]
      split_ifs
      · rw [List.flatten_cons, ih]
      · rw [ih, List.append_assoc]

/-- All pieces of a layout are words. -/
theorem isWord_of_mem_fill (hws : ∀ w ∈ ws, IsWord w) {line : List (List Char)}
    (hline : line ∈ m.fill limit [] ws) : ∀ w ∈ line, IsWord w := by
  intro w hw
  have h : w ∈ (m.fill limit [] ws).flatten := List.mem_flatten_of_mem hline hw
  rw [flatten_fill, List.nil_append, List.mem_flatMap] at h
  obtain ⟨word, hword, h⟩ := h
  exact isWord_of_mem_parts (hws word hword) h

/-- Each line of a layout has some pieces, and they fit on it together, or there is a single
character. -/
theorem fits_of_mem_fill (hpieces : m.width (unwords pieces) ≤ limit) {line : List (List Char)}
    (hline : line ∈ m.fill limit pieces ws) :
    line ≠ [] ∧ (m.width (unwords line) ≤ limit ∨ ∃ c, line = [[c]]) := by
  have hwhole {pieces : List (List Char)} (hpieces : m.width (unwords pieces) ≤ limit)
      (h : line ∈ whole pieces) :
      line ≠ [] ∧ (m.width (unwords line) ≤ limit ∨ ∃ c, line = [[c]]) := by
    rw [whole] at h
    split_ifs at h with hnil
    · cases h
    · rw [List.mem_singleton.1 h]
      exact ⟨hnil, .inl hpieces⟩
  induction ws generalizing pieces with
  | nil => exact hwhole hpieces hline
  | cons word ws ih =>
    rw [Measure.fill] at hline
    split_ifs at hline with hlimit htoo
    · simp only [List.mem_append, List.mem_map] at hline
      obtain (h | ⟨chunk, hchunk, rfl⟩) | h := hline
      · exact hwhole hpieces h
      · refine ⟨List.cons_ne_nil chunk [], ?_⟩
        rw [unwords_singleton]
        exact (fits_of_mem_chunks hchunk).imp_right fun ⟨c, hc⟩ => ⟨c, by rw [hc]⟩
      · have hnil : m.width (unwords []) ≤ limit := Nat.zero_le limit
        exact ih hnil h
    · obtain rfl | h := List.mem_cons.1 hline
      · exact ⟨htoo.1, .inl hpieces⟩
      · refine ih ?_ h
        rw [unwords_singleton]
        exact Nat.not_lt.1 hlimit
    · refine ih ?_ hline
      by_cases hnil : pieces = []
      · rw [hnil, List.nil_append, unwords_singleton]
        exact Nat.not_lt.1 hlimit
      · exact Nat.not_lt.1 fun h => htoo ⟨hnil, h⟩

/-! ### Filling is greedy -/

theorem width_unwords_le_append (vs ws : List (List Char)) :
    m.width (unwords vs) ≤ m.width (unwords (vs ++ ws)) := by
  by_cases hvs : vs = []
  · rw [hvs]
    exact Nat.zero_le _
  · by_cases hws : ws = []
    · rw [hws, List.append_nil]
    · rw [unwords_append hvs hws, m.width_append]
      exact Nat.le_add_right _ _

theorem width_le_unwords_concat (pieces : List (List Char)) (word : List Char) :
    m.width word ≤ m.width (unwords (pieces ++ [word])) := by
  by_cases hnil : pieces = []
  · rw [hnil, List.nil_append, unwords_singleton]
  · rw [width_unwords_concat hnil]
    exact Nat.le_add_left _ _

/-- Pieces that fit on one line are laid out on one line. -/
theorem fill_eq_singleton (hne : pieces ++ ws ≠ []) (h : m.width (unwords (pieces ++ ws)) ≤ limit) :
    m.fill limit pieces ws = [pieces ++ ws] := by
  induction ws generalizing pieces with
  | nil =>
    rw [List.append_nil] at hne ⊢
    exact if_neg hne
  | cons word ws ih =>
    rw [List.append_cons] at hne h ⊢
    have hbegun : m.width (unwords (pieces ++ [word])) ≤ limit :=
      (width_unwords_le_append _ ws).trans h
    have hword : m.width word ≤ limit := (width_le_unwords_concat pieces word).trans hbegun
    rw [Measure.fill, if_neg (Nat.not_lt.2 hword), if_neg fun h => Nat.not_lt.2 hbegun h.2]
    exact ih hne h

/-- A single character is laid out on one line, however wide it is. -/
theorem fill_singleton (limit : Nat) (c : Char) : m.fill limit [] [[c]] = [[[c]]] := by
  rw [Measure.fill]
  split_ifs with hlimit htoo
  · rfl
  · exact absurd rfl htoo.1
  · rfl

/-- A line that has been begun goes on, and others may follow. -/
theorem exists_fill_eq_cons (hne : pieces ≠ []) (limit : Nat) (ws : List (List Char)) :
    ∃ more rest, m.fill limit pieces ws = (pieces ++ more) :: rest := by
  induction ws generalizing pieces with
  | nil => exact ⟨[], [], by rw [Measure.fill, whole, if_neg hne, List.append_nil]⟩
  | cons word ws ih =>
    rw [Measure.fill]
    split_ifs with hlimit
    · exact ⟨[], (m.chunks limit word).map ([·]) ++ m.fill limit [] ws, by
        rw [whole, if_neg hne, List.append_nil]; rfl⟩
    · exact ⟨[], m.fill limit [word] ws, by rw [List.append_nil]⟩
    · obtain ⟨more, rest, h⟩ := ih (List.append_ne_nil_of_right_ne_nil pieces
        (List.cons_ne_nil word []))
      exact ⟨word :: more, rest, by rw [h, List.append_assoc]; rfl⟩

/-- How the piece `v` follows a line that ends with `u` behind the pieces `as`: on that line, or on
the next if that line has no room for it. -/
def Measure.Continues (m : Measure) (limit : Nat) (as : List (List Char)) (u v : List Char)
    (lines : List (List (List Char))) : Prop :=
  (∃ more rest, lines = (as ++ u :: v :: more) :: rest) ∨
    (∃ more rest, lines = (as ++ [u]) :: (v :: more) :: rest) ∧
      limit < m.width (unwords (as ++ [u] ++ [v]))

theorem continues_fill (hv : m.width v ≤ limit) (as : List (List Char)) (u : List Char)
    (vs : List (List Char)) : m.Continues limit as u v (m.fill limit (as ++ [u]) (v :: vs)) := by
  rw [Measure.fill, if_neg (Nat.not_lt.2 hv)]
  split_ifs with htoo
  · obtain ⟨more, rest, h⟩ := exists_fill_eq_cons (List.cons_ne_nil v []) limit vs
    exact .inr ⟨⟨more, rest, by rw [h]; rfl⟩, htoo.2⟩
  · have hne : as ++ [u] ++ [v] ≠ [] :=
      List.append_ne_nil_of_right_ne_nil _ (List.cons_ne_nil v [])
    obtain ⟨more, rest, h⟩ := exists_fill_eq_cons hne limit vs
    exact .inl ⟨more, rest, by rw [h, List.append_assoc, List.append_assoc]; rfl⟩

/-- Of two words that follow each other and are not cut, the second is on the line of the first, or
on the next if that line has no room for it. -/
theorem exists_fill_eq (hu : m.width u ≤ limit) (hv : m.width v ≤ limit)
    (pieces us vs : List (List Char)) :
    ∃ above as lines, m.fill limit pieces (us ++ u :: v :: vs) = above ++ lines ∧
      above.flatten.flatten ++ as.flatten = pieces.flatten ++ us.flatten ∧
      m.Continues limit as u v lines := by
  induction us generalizing pieces with
  | nil =>
    rw [List.nil_append, Measure.fill, if_neg (Nat.not_lt.2 hu)]
    split_ifs
    · exact ⟨[pieces], [], _, rfl, by simp, continues_fill hv [] u vs⟩
    · exact ⟨[], pieces, _, rfl, by simp, continues_fill hv pieces u vs⟩
  | cons word us ih =>
    rw [List.cons_append, Measure.fill, List.flatten_cons]
    split_ifs
    · obtain ⟨above, as, lines, hfill, hflat, hlines⟩ := ih []
      refine ⟨whole pieces ++ (m.chunks limit word).map ([·]) ++ above, as, lines, ?_, ?_, hlines⟩
      · rw [hfill, List.append_assoc _ above lines]
      · simp only [List.flatten_append, flatten_whole, flatten_singletons, flatten_chunks,
          List.append_assoc, hflat]
        rfl
    · obtain ⟨above, as, lines, hfill, hflat, hlines⟩ := ih [word]
      refine ⟨pieces :: above, as, lines, ?_, ?_, hlines⟩
      · rw [hfill]
        rfl
      · rw [List.flatten_cons, List.flatten_append, List.append_assoc, hflat,
          List.flatten_singleton]
    · obtain ⟨above, as, lines, hfill, hflat, hlines⟩ := ih (pieces ++ [word])
      refine ⟨above, as, lines, hfill, ?_, hlines⟩
      rw [hflat, List.flatten_append, List.flatten_singleton, List.append_assoc]

/-! ### Wrapped texts -/

/-- The words of a line are the pieces that it was laid out from. -/
theorem words_unwords_of_mem_fill {pieces : List (List Char)}
    (h : pieces ∈ m.fill limit [] (words cs)) : words (unwords pieces) = pieces :=
  words_unwords (isWord_of_mem_fill (fun _ hw => isWord_of_mem_words hw) h)

theorem exists_mem_fill (hlimit : 0 < limit) (h : line ∈ m.wrap limit cs) :
    ∃ pieces ∈ m.fill limit [] (words cs), unwords pieces = line := by
  rwa [wrap_eq_map_fill hlimit, List.mem_map] at h

theorem tidy_of_mem_wrap (hlimit : 0 < limit) (h : line ∈ m.wrap limit cs) : Tidy line := by
  obtain ⟨pieces, hpieces, rfl⟩ := exists_mem_fill hlimit h
  exact tidy_unwords (fits_of_mem_fill (Nat.zero_le limit) hpieces).1
    (isWord_of_mem_fill (fun _ hw => isWord_of_mem_words hw) hpieces)

/-- The words of the lines are the words of the text, those too wide being cut. -/
theorem flatMap_words_wrap (hlimit : 0 < limit) (cs : List Char) :
    (m.wrap limit cs).flatMap words = (words cs).flatMap (m.parts limit) := by
  calc (m.wrap limit cs).flatMap words
      = (m.fill limit [] (words cs)).flatMap (fun pieces => words (unwords pieces)) := by
        rw [wrap_eq_map_fill hlimit, List.flatMap_map]
    _ = (m.fill limit [] (words cs)).flatten :=
        (List.flatMap_congr fun _ h => words_unwords_of_mem_fill h).trans List.flatMap_id
    _ = (words cs).flatMap (m.parts limit) := flatten_fill limit [] (words cs)

theorem fits_of_mem_wrap (hlimit : 0 < limit) (h : line ∈ m.wrap limit cs) : m.Fits limit line := by
  obtain ⟨pieces, hpieces, rfl⟩ := exists_mem_fill hlimit h
  refine (fits_of_mem_fill (Nat.zero_le limit) hpieces).2.imp_right ?_
  rintro ⟨c, rfl⟩
  exact ⟨c, unwords_singleton [c]⟩

/-- A limit that no character exceeds is kept. -/
theorem width_le_of_mem_wrap (hlimit : 0 < limit) (hnarrow : ∀ c, m.narrow c ≤ limit)
    (h : line ∈ m.wrap limit cs) : m.width line ≤ limit := by
  obtain h | ⟨c, rfl⟩ := fits_of_mem_wrap hlimit h
  · exact h
  · exact hnarrow c

/-- The lines have what is not blank of the text. -/
theorem filter_flatten_wrap (hlimit : 0 < limit) (cs : List Char) :
    (m.wrap limit cs).flatten.filter (· ≠ ' ') = unblanked cs := by
  calc (m.wrap limit cs).flatten.filter (· ≠ ' ')
      = (m.wrap limit cs).flatMap (fun line => line.filter (· ≠ ' ')) := by
        rw [List.filter_flatten, List.flatMap_def]
    _ = (m.wrap limit cs).flatMap (fun line => (words line).flatten) :=
        List.flatMap_congr fun line h =>
          (tidy_of_mem_wrap hlimit h).filter_ne_space.trans (flatten_words line).symm
    _ = ((m.wrap limit cs).flatMap words).flatten := by
        rw [List.flatMap_def, List.flatMap_def, List.flatten_flatten, List.map_map]
        rfl
    _ = unblanked cs := by
        rw [flatMap_words_wrap hlimit, flatten_flatMap_parts, flatten_words]

/-- Text that is not blank is on some line. -/
theorem wrap_ne_nil (h : ¬ AllBlank cs) (limit : Nat) : m.wrap limit cs ≠ [] := by
  intro hnil
  obtain rfl | hlimit := Nat.eq_zero_or_pos limit
  · exact List.cons_ne_nil [] [] hnil
  · have hunblanked := filter_flatten_wrap (m := m) hlimit cs
    rw [hnil] at hunblanked
    exact h (unblanked_eq_nil_iff.1 hunblanked.symm)

/-- A line that is wrapped again stays as it is. -/
theorem wrap_of_mem_wrap (hlimit : 0 < limit) (h : line ∈ m.wrap limit cs) :
    m.wrap limit line = [line] := by
  obtain ⟨pieces, hpieces, rfl⟩ := exists_mem_fill hlimit h
  rw [wrap_eq_map_fill hlimit, words_unwords_of_mem_fill hpieces]
  obtain ⟨hne, hfits | ⟨c, rfl⟩⟩ := fits_of_mem_fill (Nat.zero_le limit) hpieces
  · have hfill : m.fill limit [] pieces = [pieces] := fill_eq_singleton hne hfits
    rw [hfill]
    rfl
  · rw [fill_singleton]
    rfl

/-- **Wrapping loses nothing, and the lines fit.** Without spaces the lines are the text without its
blanks; each line is tidy; the words of the lines are those of the text, each of them in one piece
if it is no wider than the lines; and no line is too wide, except for a single character that is.
This is so however columns are counted. -/
theorem wrap_keeps_and_fits (m : Measure) (hlimit : 0 < limit) (cs : List Char) :
    (m.wrap limit cs).flatten.filter (· ≠ ' ') = cs.filter (!isBlank ·) ∧
    (∀ line ∈ m.wrap limit cs, Tidy line) ∧
    (∃ pieces, List.Forall₂ (fun w ps => ps.flatten = w ∧ (m.width w ≤ limit → ps = [w])) (words cs)
        pieces ∧
      (m.wrap limit cs).flatMap words = pieces.flatten) ∧
    ∀ line ∈ m.wrap limit cs, m.width line ≤ limit ∨ ∃ c, line = [c] ∧ limit < m.narrow c := by
  refine ⟨filter_flatten_wrap hlimit cs, fun _ => tidy_of_mem_wrap hlimit,
    ⟨(words cs).map (m.parts limit), ?_, ?_⟩, ?_⟩
  · rw [List.forall₂_map_right_iff, List.forall₂_same]
    exact fun w _ => ⟨flatten_parts limit w, parts_of_width_le⟩
  · rw [flatMap_words_wrap hlimit, List.flatMap_def]
  · intro line hline
    obtain h | ⟨c, rfl⟩ := fits_of_mem_wrap hlimit hline
    · exact .inl h
    · exact (Nat.lt_or_ge limit (m.narrow c)).symm.imp_right fun h => ⟨c, rfl, h⟩

/-- The sign of three columns has a line of two columns for itself. -/
theorem wrap_keeps_and_fits_wide_sign :
    let cs := "1\u17D8 234".toList
    0 < 2 ∧ wrap 2 cs = [['1'], ['\u17D8'], ['2', '3'], ['4']] ∧
      (∃ c, ['\u17D8'] = [c] ∧ 2 < charWidth c) ∧ ∀ line ∈ wrap 2 cs, Tidy line := by
  intro cs
  have hwrap : wrap 2 cs = [['1'], ['\u17D8'], ['2', '3'], ['4']] := by decide +kernel
  have hmem : ['\u17D8'] ∈ wrap 2 cs := by
    rw [hwrap]
    decide
  obtain ⟨-, htidy, -, hfits⟩ := wrap_keeps_and_fits terminal (by decide : 0 < 2) cs
  exact ⟨by decide, hwrap, (hfits _ hmem).resolve_left (by decide +kernel), htidy⟩

/-- **Wrapping is greedy and stable.** A line that is wrapped again stays as it is. Of two words
that follow each other in the text and are no wider than the lines, the second is on the line of the
first, or it begins the next line because there is no room for it behind a space. This is so however
columns are counted. -/
theorem wrap_greedy_stable (m : Measure) (hlimit : 0 < limit) (cs : List Char) :
    (∀ line ∈ m.wrap limit cs, m.wrap limit line = [line]) ∧
    ∀ us u v vs, words cs = us ++ u :: v :: vs → m.width u ≤ limit → m.width v ≤ limit →
      ∃ above line below as bs, m.wrap limit cs = above ++ line :: below ∧
        words line = as ++ u :: bs ∧
        (above.flatMap words).flatten ++ as.flatten = us.flatten ∧
        ((∃ more, bs = v :: more) ∨
          bs = [] ∧ (∃ next rest, below = next :: rest ∧ (words next).head? = some v) ∧
            limit < m.width (line ++ ' ' :: v)) := by
  refine ⟨fun _ => wrap_of_mem_wrap hlimit, fun us u v vs hcs hu hv => ?_⟩
  obtain ⟨above, as, lines, hfill, hflat, hlines⟩ := exists_fill_eq hu hv [] us vs
  rw [← hcs] at hfill
  have hwords (pieces : List (List Char)) (h : pieces ∈ above ++ lines) :
      words (unwords pieces) = pieces := words_unwords_of_mem_fill (hfill ▸ h)
  have habove : ((above.map unwords).flatMap words).flatten ++ as.flatten = us.flatten := by
    rw [List.flatMap_map, List.flatMap_congr fun pieces h =>
      hwords pieces (List.mem_append_left lines h), List.flatMap_id']
    exact hflat
  have hwrap : m.wrap limit cs = above.map unwords ++ lines.map unwords := by
    rw [wrap_eq_map_fill hlimit, hfill, List.map_append]
  obtain ⟨more, rest, rfl⟩ | ⟨⟨more, rest, rfl⟩, htoo⟩ := hlines
  · refine ⟨_, _, rest.map unwords, as, v :: more, hwrap, ?_, habove, .inl ⟨more, rfl⟩⟩
    exact hwords _ (by simp)
  · refine ⟨_, _, _, as, [], hwrap, hwords _ (by simp), habove, .inr ⟨rfl, ⟨_, _, rfl, ?_⟩, ?_⟩⟩
    · rw [hwords _ (by simp)]
      rfl
    · rwa [unwords_concat (List.append_ne_nil_of_right_ne_nil as (List.cons_ne_nil u []))] at htoo

/-- A word of wide characters has no room on the line, though its characters would have. -/
theorem wrap_greedy_stable_no_room :
    let cs := "1 + 漢字 * 3".toList
    (0 < 6 ∧ words cs = [['1']] ++ ['+'] :: ['漢', '字'] :: [['*'], ['3']] ∧
      width ['+'] ≤ 6 ∧ width ['漢', '字'] ≤ 6) ∧
    wrap 6 "漢字 *".toList = ["漢字 *".toList] ∧
    ∃ line ∈ wrap 6 cs, ['+'] ∈ words line ∧
      (['漢', '字'] ∈ words line ∨ 6 < width (line ++ ' ' :: ['漢', '字'])) := by
  intro cs
  have hwords : words cs = [['1']] ++ ['+'] :: ['漢', '字'] :: [['*'], ['3']] := by decide +kernel
  have hmem : "漢字 *".toList ∈ wrap 6 cs := by decide +kernel
  have hu : width ['+'] ≤ 6 := by decide
  have hv : width ['漢', '字'] ≤ 6 := by decide +kernel
  obtain ⟨hstable, hgreedy⟩ := wrap_greedy_stable terminal (by decide : 0 < 6) cs
  obtain ⟨above, line, below, as, bs, hwrap, hline, -, hnext⟩ := hgreedy _ _ _ _ hwords hu hv
  have hmem' : line ∈ wrap 6 cs := by
    rw [wrap, hwrap]
    exact List.mem_append_right above List.mem_cons_self
  refine ⟨⟨by decide, hwords, hu, hv⟩, hstable _ hmem, line, hmem', by simp [hline], ?_⟩
  obtain ⟨more, rfl⟩ | ⟨-, -, htoo⟩ := hnext
  · exact .inl (by simp [hline])
  · exact .inr htoo

end Reckoner.Text
