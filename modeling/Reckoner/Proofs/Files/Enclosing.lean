import Mathlib.Data.List.Infix
import Reckoner.Proofs.Files.Path
import Reckoner.Proofs.Files.Tree
import Reckoner.Proofs.Text.Utf8

/-!
# The directory that a file lies in

The path that a path lies in is found from the text alone, while a walk looks at the tree. The two
agree for a path that leads somewhere: the path that it lies in is a part of its text
(`chars_assemble_isPrefix`), and walking along that part comes to where the last name is looked up
(`foldlM_enter_assemble`), so it leads to a directory (`isDirectory_of_parent?`).

So directories that could not be made cannot be made at a second attempt (`createChain_again`): what
the first attempt has left lies before the path at which it failed, and no path leads over that one.
-/

namespace Reckoner.Files

variable {first name : Piece} {pieces reversed : List Piece}

/-! ### Parts of a path -/

theorem joinSlashes_splitSlashes (cs : List Char) : joinSlashes (splitSlashes cs) = cs := by
  rw [splitSlashes_eq_splitOn, joinSlashes, List.intercalate_splitOn]

theorem joinSlashes_cons_cons (first piece : Piece) (pieces : List Piece) :
    joinSlashes (first :: piece :: pieces) = first ++ '/' :: joinSlashes (piece :: pieces) := by
  rw [joinSlashes, List.intercalate_cons_cons, List.append_assoc]
  rfl

theorem joinSlashes_isPrefix (hne : pieces ≠ []) (more : List Piece) :
    joinSlashes pieces <+: joinSlashes (pieces ++ more) := by
  induction pieces with
  | nil => exact absurd rfl hne
  | cons first pieces ih =>
    cases pieces with
    | nil =>
      cases more with
      | nil => exact List.prefix_rfl
      | cons piece more =>
        rw [List.singleton_append, joinSlashes_cons_cons, joinSlashes, List.intercalate_singleton]
        exact List.prefix_append _ _
    | cons piece pieces =>
      have h := ih (List.cons_ne_nil piece pieces)
      rw [List.cons_append, List.cons_append, joinSlashes_cons_cons, joinSlashes_cons_cons]
      rw [List.cons_append] at h
      exact (List.prefix_append_right_inj first).2 ((List.prefix_cons_inj '/').2 h)

namespace Path

/-- The path made of pieces is a part of a path that goes on after them. -/
theorem chars_assemble_isPrefix (first name : Piece) (reversed : List Piece) :
    (assemble first reversed).chars <+: joinSlashes (first :: (reversed.reverse ++ [name])) := by
  have hsplit : reversed.reverse =
      (reversed.dropWhile isVoid).reverse ++ (reversed.takeWhile isVoid).reverse := by
    rw [← List.reverse_append, List.takeWhile_append_dropWhile]
  rw [hsplit, List.append_assoc, assemble]
  generalize reversed.dropWhile isVoid = rest
  obtain ⟨piece, more, hmore⟩ := List.ne_nil_iff_exists_cons.1 <|
    List.append_ne_nil_of_right_ne_nil (reversed.takeWhile isVoid).reverse
      (List.cons_ne_nil name [])
  rw [hmore]
  cases rest with
  | nil =>
    rw [List.reverse_nil, List.nil_append, joinSlashes_cons_cons]
    dsimp only
    split_ifs with hnil
    · rw [chars_ofChars, hnil]
      exact List.prefix_append ['/'] _
    · rw [chars_ofChars]
      exact List.prefix_append first _
  | cons last rest =>
    dsimp only
    rw [chars_ofChars, ← List.cons_append]
    exact joinSlashes_isPrefix (List.cons_ne_nil _ _) _

end Path

/-! ### Walking along a part -/

namespace Tree

variable {t : Tree} {l k : Location} {p q : Path}

theorem enter_of_isVoid (t : Tree) (l : Location) {piece : Piece} (h : isVoid piece = true) :
    t.enter l piece = .ok l := by
  rw [enter, if_pos h]

/-- Pieces at the end that lead nowhere can be left out. -/
theorem foldlM_enter_dropWhile (t : Tree) (l : Location) (reversed : List Piece) {f : Piece → Bool}
    (hf : ∀ piece, f piece = true → isVoid piece = true) :
    (reversed.dropWhile f).reverse.foldlM t.enter l = reversed.reverse.foldlM t.enter l := by
  induction reversed with
  | nil => rfl
  | cons piece reversed ih =>
    rw [List.dropWhile_cons]
    split_ifs with h
    · rw [ih, List.reverse_cons, List.foldlM_append]
      cases reversed.reverse.foldlM t.enter l with
      | error e => rfl
      | ok k =>
        have hk : t.enter k piece = .ok k := enter_of_isVoid t k (hf piece h)
        exact (show t.enter k piece >>= .ok = .ok k by rw [hk]; rfl).symm
    · rfl

/-- Walking along the path made of pieces goes where the pieces go. -/
theorem foldlM_enter_assemble (t : Tree) (l : Location) (hfirst : '/' ∉ first)
    (h : ∀ piece ∈ reversed, '/' ∉ piece) :
    (splitSlashes (Path.assemble first reversed).chars).foldlM t.enter l =
      (first :: reversed.reverse).foldlM t.enter l := by
  obtain ⟨rest, hsplit, hrest⟩ := Path.exists_splitSlashes_assemble hfirst h
  have hwalk (k : Location) : rest.foldlM t.enter k = reversed.reverse.foldlM t.enter k := by
    calc rest.foldlM t.enter k
        = rest.reverse.reverse.foldlM t.enter k := by rw [List.reverse_reverse]
      _ = (rest.reverse.dropWhile isVoid).reverse.foldlM t.enter k :=
          (foldlM_enter_dropWhile t k _ fun _ => id).symm
      _ = (reversed.dropWhile isVoid).reverse.foldlM t.enter k := by rw [hrest]
      _ = reversed.reverse.foldlM t.enter k := foldlM_enter_dropWhile t k _ fun _ => id
  rw [hsplit, List.foldlM_cons, List.foldlM_cons]
  simp only [hwalk]

/-! ### Where walks end -/

/-- Where a path begins. -/
def start (t : Tree) (p : Path) : Location := if p.isAbsolute then [] else t.here

theorem target_eq_ok_iff {x : Target} : t.target p = .ok x ↔
    '\x00' ∉ p.chars ∧ p.isEmpty = false ∧ byteLength p.chars ≤ pathLimit ∧
      t.targetOf (t.start p) (splitSlashes p.chars).reverse = .ok x := by
  rw [target, start]
  split_ifs with hnul hempty hlong <;> simp_all [Nat.not_le_of_lt]

/-- The last piece that is not empty decides where a path ends. -/
theorem targetOf_eq_ok_iff {before : List Piece} {x : Target}
    (h : reversed.dropWhile List.isEmpty = name :: before) :
    t.targetOf l reversed = .ok x ↔ ∃ k, before.reverse.foldlM t.enter l = .ok k ∧
      x = if name = ['.'] then .directory k
        else if name = ['.', '.'] then .directory k.dropLast
        else .entry k name (reversed.head?.any List.isEmpty) := by
  rw [targetOf, h]
  dsimp only
  rw [bind_eq_ok_iff]
  refine exists_congr fun k => and_congr_right fun _ => ?_
  split_ifs <;> simp [eq_comm]

/-- What leads somewhere can be walked along up to a name in it. -/
theorem exists_of_targetOf_eq_ok {before behind : List Piece} {x : Target}
    (hname : isVoid name = false) (h : t.targetOf l (behind ++ name :: before) = .ok x) :
    ∃ k, before.reverse.foldlM t.enter l = .ok k := by
  have hempty : ¬ name.isEmpty = true := by
    intro hnil
    rw [List.isEmpty_iff.1 hnil] at hname
    cases hname
  obtain ⟨more, hmore⟩ : ∃ more, (behind ++ name :: before).dropWhile List.isEmpty =
      more ++ name :: before := by
    rw [List.dropWhile_append]
    split_ifs
    · exact ⟨[], by rw [List.dropWhile_cons_of_neg hempty, List.nil_append]⟩
    · exact ⟨_, rfl⟩
  cases more with
  | nil =>
    obtain ⟨k, hw, -⟩ := (targetOf_eq_ok_iff hmore).1 h
    exact ⟨k, hw⟩
  | cons piece more =>
    -- the walk goes on behind the name
    rw [List.cons_append] at hmore
    obtain ⟨k, hw, -⟩ := (targetOf_eq_ok_iff hmore).1 h
    rw [List.reverse_append, List.reverse_cons, List.append_assoc, List.foldlM_append,
      bind_eq_ok_iff] at hw
    obtain ⟨m, hw, -⟩ := hw
    exact ⟨m, hw⟩

/-- Pieces that can all be entered end in a directory. -/
theorem targetOf_of_foldlM_enter (h : reversed.reverse.foldlM t.enter l = .ok k) :
    (∃ m, t.targetOf l reversed = .ok (.directory m)) ∨
      ∃ m name slash, t.targetOf l reversed = .ok (.entry m name slash) ∧
        t.node? (m ++ [name]) = some .directory := by
  have hvoid (piece : Piece) (hp : piece.isEmpty = true) : isVoid piece = true := by
    rw [List.isEmpty_iff] at hp
    rw [hp]
    rfl
  rw [← foldlM_enter_dropWhile t l reversed hvoid] at h
  cases hr : reversed.dropWhile List.isEmpty with
  | nil => exact Or.inl ⟨l, by rw [targetOf, hr]⟩
  | cons name before =>
    rw [hr, List.reverse_cons, List.foldlM_append, bind_eq_ok_iff] at h
    obtain ⟨m, hw, hm⟩ := h
    have htarget := (targetOf_eq_ok_iff (t := t) (l := l) hr).2 ⟨m, hw, rfl⟩
    rw [htarget]
    split_ifs with hdot hdots
    · exact Or.inl ⟨m, rfl⟩
    · exact Or.inl ⟨m.dropLast, rfl⟩
    · refine Or.inr ⟨m, name, _, rfl, ?_⟩
      have hlast := List.head?_dropWhile_not List.isEmpty reversed
      rw [hr, List.head?_cons] at hlast
      have hnil : name ≠ [] := by
        rintro rfl
        cases hlast
      have henter : t.enter m name = .ok k := by simpa using hm
      rw [enter_eq_ok_iff, if_neg (by simp [isVoid, hnil, hdot]), if_neg hdots] at henter
      exact henter.2.1

/-- A path that begins another and can be walked along leads to a directory. -/
theorem isDirectory_of_isPrefix {x : Target} (hp : t.target p = .ok x) (hq : q.chars <+: p.chars)
    (hne : q.isEmpty = false)
    (hw : (splitSlashes q.chars).foldlM t.enter (t.start p) = .ok k) : t.isDirectory q = true := by
  obtain ⟨hnul, -, hlong, -⟩ := target_eq_ok_iff.1 hp
  obtain ⟨cs, hcs⟩ := hq
  have hstart : t.start q = t.start p := by
    have hhead : p.chars.head? = q.chars.head? := by
      rw [← hcs, List.head?_append_of_ne_nil]
      simpa [Path.isEmpty] using hne
    rw [start, start, Path.isAbsolute, Path.isAbsolute, hhead]
  have htarget (y : Target) (hy : t.targetOf (t.start p) (splitSlashes q.chars).reverse = .ok y) :
      t.target q = .ok y := by
    refine target_eq_ok_iff.2 ⟨fun h => hnul ?_, hne, ?_, hstart ▸ hy⟩
    · rw [← hcs]
      exact List.mem_append_left _ h
    · rw [← hcs, byteLength, Text.Utf8.encode_append, List.length_append] at hlong
      exact (Nat.le_add_right _ _).trans hlong
  rw [← List.reverse_reverse (splitSlashes q.chars)] at hw
  rcases targetOf_of_foldlM_enter hw with ⟨m, hm⟩ | ⟨m, name, slash, hm, hdir⟩
  · rw [isDirectory, htarget _ hm]
  · rw [isDirectory, htarget _ hm]
    exact decide_eq_true hdir

/-- **A path that leads somewhere lies in a directory that is there**, or in the empty path. -/
theorem isDirectory_of_parent? {x : Target} (ht : t.target p = .ok x) (hq : p.parent? = some q) :
    q.isEmpty = true ∨ t.isDirectory q = true := by
  rw [or_iff_not_imp_left, Bool.not_eq_true]
  intro hqne
  obtain ⟨-, -, -, htarget⟩ := target_eq_ok_iff.1 ht
  have hslash : ∀ piece ∈ splitSlashes p.chars, '/' ∉ piece := fun _ h => slash_not_mem h
  have hchars := joinSlashes_splitSlashes p.chars
  cases hs : splitSlashes p.chars with
  | nil => exact absurd hs (splitSlashes_ne_nil p.chars)
  | cons first rest =>
    rw [Path.parent?_eq hs] at hq
    rw [hs] at hslash hchars htarget
    rw [List.forall_mem_cons] at hslash
    cases hd : rest.reverse.dropWhile isVoid with
    | nil =>
      -- one piece lies in the empty path
      rw [hd] at hq
      dsimp only at hq
      split_ifs at hq
      cases hq
      cases hqne
    | cons name before =>
      rw [hd] at hq
      cases hq
      have hname := List.head?_dropWhile_not isVoid rest.reverse
      rw [hd, List.head?_cons] at hname
      have hpieces := List.takeWhile_append_dropWhile (p := isVoid) (l := rest.reverse)
      rw [hd] at hpieces
      generalize rest.reverse.takeWhile isVoid = behind at hpieces
      have hrest : rest = before.reverse ++ [name] ++ behind.reverse := by
        rw [← List.reverse_reverse rest, ← hpieces, List.reverse_append, List.reverse_cons]
      have hbefore : ∀ piece ∈ before, '/' ∉ piece := by
        intro piece hpiece
        refine hslash.2 piece ?_
        rw [hrest]
        simp [hpiece]
      rw [List.reverse_cons, ← hpieces, List.append_assoc, List.cons_append] at htarget
      obtain ⟨k, hw⟩ := exists_of_targetOf_eq_ok (by simpa using hname) htarget
      rw [List.reverse_append] at hw
      have hprefix := (Path.chars_assemble_isPrefix first name before).trans
        (joinSlashes_isPrefix (List.cons_ne_nil _ _) behind.reverse)
      rw [List.cons_append, ← hrest, hchars] at hprefix
      refine isDirectory_of_isPrefix ht hprefix hqne (k := k) ?_
      rw [foldlM_enter_assemble t _ hslash.1 hbefore]
      exact hw

/-! ### Directories that cannot be made -/

/-- A chain cannot be made if its first path leads nowhere and the others cannot be made. -/
theorem createChain_of_target_error {e : Failure} {ps : List Path} (hp : p.isEmpty = false)
    (ht : ∀ x, t.target p ≠ .ok x) (h : t.createChain ps = ⟨t, some e⟩) :
    t.isDirectory p = false ∧ ∃ e', t.createChain (p :: ps) = ⟨t, some e'⟩ := by
  obtain ⟨e', htarget⟩ : ∃ e', t.target p = .error e' := by
    rcases hx : t.target p with e' | x
    · exact ⟨e', rfl⟩
    · exact absurd hx (ht x)
  have hdir : t.isDirectory p = false := by rw [isDirectory, htarget]
  have hc : t.createDirectory p = .error e' := by
    rw [createDirectory, htarget]
    rfl
  refine ⟨hdir, ?_⟩
  by_cases hnot : t.createDirectory p = .error .notFound
  · rw [createChain_of_notFound hp hnot, h]
    exact ⟨e, rfl⟩
  · rw [createChain_of_ne_notFound hp hnot]
    exact ⟨e', settleDirectory_eq_some_iff.2 ⟨hc, hdir, rfl⟩⟩

/-- **Directories that could not be made cannot be made at a second attempt**, though the first may
have made some of those before them. -/
theorem createChain_again {u : Tree} {e : Failure} {ps : List Path} (hps : p.ancestors = ps)
    (h : t.createChain (p :: ps) = ⟨u, some e⟩) :
    u.isDirectory p = false ∧ ∃ e', u.createChain (p :: ps) = ⟨u, some e'⟩ := by
  induction ps generalizing p u e with
  | nil =>
    cases hp : p.isEmpty with
    | true =>
      rw [createChain_of_isEmpty hp] at h
      cases h
    | false =>
      have hsettle : t.settleDirectory p = ⟨u, some e⟩ := by
        by_cases hc : t.createDirectory p = .error .notFound
        · rwa [createChain_of_notFound hp hc] at h
        · rwa [createChain_of_ne_notFound hp hc] at h
      obtain ⟨-, hdir, rfl⟩ := settleDirectory_eq_some_iff.1 hsettle
      exact ⟨hdir, e, h⟩
  | cons q qs ih =>
    have hqs := Path.ancestors_of_cons hps
    cases hp : p.isEmpty with
    | true =>
      rw [createChain_of_isEmpty hp] at h
      cases h
    | false =>
      by_cases hc : t.createDirectory p = .error .notFound
      · rw [createChain_of_notFound hp hc] at h
        rcases hm : t.createChain (q :: qs) with ⟨v, _ | e'⟩
        · -- what `p` lies in was made, and is there the second time
          rw [hm] at h
          obtain ⟨hc', hdir, rfl⟩ := settleDirectory_eq_some_iff.1 h
          refine ⟨hdir, e, ?_⟩
          by_cases hnot : u.createDirectory p = .error .notFound
          · rw [createChain_of_notFound hp hnot, createChain_createChain hm]
            exact h
          · rw [createChain_of_ne_notFound hp hnot]
            exact h
        · -- what `p` lies in cannot be made the second time either
          rw [hm] at h
          cases h
          obtain ⟨hqdir, e', hagain⟩ := ih hqs hm
          refine createChain_of_target_error hp (fun x hx => ?_) hagain
          have hparent : p.parent? = some q := by rw [Path.parent?, hps, List.head?_cons]
          rcases isDirectory_of_parent? hx hparent with hq | hq
          · rw [createChain_of_isEmpty hq] at hm
            cases hm
          · rw [hq] at hqdir
            cases hqdir
      · rw [createChain_of_ne_notFound hp hc] at h
        obtain ⟨-, hdir, rfl⟩ := settleDirectory_eq_some_iff.1 h
        refine ⟨hdir, e, ?_⟩
        rw [createChain_of_ne_notFound hp hc]
        exact h

end Tree

end Reckoner.Files
