import Mathlib.Data.List.Basic
import Mathlib.Tactic.SplitIfs
import Reckoner.Files.Tree

/-!
# What file operations change

An operation that succeeds puts one node at the location to which its path leads (`write_eq_ok_iff`,
`createDirectory_eq_ok_iff`); every other location is as before. A walk looks at nothing but
directories, so in a tree that keeps the directories of another all paths lead where they led
(`KeepsDirectories.target`). That is why a file that was written is read back from its path
(`read_write`) and why only what is written last counts (`exists_write_of_write`).

Making directories can stop half way, and whatever it has done by then stays. `Extends` says how
much that can be: directories where nothing stood, each of them where one of the given paths leads.
For a directory that is there nothing is made at all (`createChain_of_isDirectory`).
-/

namespace Reckoner.Files.Tree

variable {t t' t'' : Tree} {l l' : Location} {n : Node} {p : Path} {ps : List Path}

/-- A result of two steps is a result of the first and, with that, of the second. -/
theorem bind_eq_ok_iff {ε α β : Type} {x : Except ε α} {f : α → Except ε β} {b : β} :
    x >>= f = .ok b ↔ ∃ a, x = .ok a ∧ f a = .ok b := by
  cases x with
  | error e => simp [bind, Except.bind]
  | ok a => simp [bind, Except.bind]

/-! ### One node -/

theorem lookup_filter_of_ne (h : l' ≠ l) (nodes : List (Location × Node)) :
    (nodes.filter (·.1 != l)).lookup l' = nodes.lookup l' := by
  induction nodes with
  | nil => rfl
  | cons e nodes ih =>
    obtain ⟨k, n⟩ := e
    by_cases hk : k = l
    · subst hk
      rw [List.filter_cons_of_neg (by simp), List.lookup_cons, ih, beq_false_of_ne h]
    · rw [List.filter_cons_of_pos (by simpa using hk), List.lookup_cons, List.lookup_cons, ih]

theorem node?_put (h : l ≠ []) (t : Tree) (n : Node) : (t.put l n).node? l = some n := by
  rw [node?, if_neg h, put, List.lookup_cons_self]

theorem node?_put_of_ne (h : l' ≠ l) (t : Tree) (n : Node) :
    (t.put l n).node? l' = t.node? l' := by
  rw [node?, node?, put, List.lookup_cons, beq_false_of_ne h]
  simp only [lookup_filter_of_ne h]

/-- What is put last counts. -/
theorem put_put (t : Tree) (l : Location) (n n' : Node) : (t.put l n).put l n' = t.put l n' := by
  rw [put, put, put]
  simp [List.filter_filter]

/-! ### Where paths lead -/

/-- A piece is left out, leads up, or is the name of a directory. -/
theorem enter_eq_ok_iff {piece : Piece} : t.enter l piece = .ok l' ↔
    if isVoid piece then l' = l
    else if piece = ['.', '.'] then l' = l.dropLast
    else byteLength piece ≤ nameLimit ∧ t.node? (l ++ [piece]) = some .directory ∧
      l' = l ++ [piece] := by
  rw [enter]
  split_ifs with hvoid hdots hlong
  · simp [eq_comm]
  · simp [eq_comm]
  · simp [Nat.not_le_of_lt hlong]
  · rw [and_iff_right (Nat.le_of_not_lt hlong)]
    rcases t.node? (l ++ [piece]) with _ | ⟨content⟩ | _ <;> simp [eq_comm]

/-- The location of a target. -/
def Target.location : Target → Location
  | directory l => l
  | entry l name _ => l ++ [name]

/-- The path leads to the location. -/
def LeadsTo (t : Tree) (p : Path) (l : Location) : Prop :=
  ∃ x, t.target p = .ok x ∧ x.location = l

/-- Every directory of `t` is one of `t'`, and so is the working directory. -/
structure KeepsDirectories (t t' : Tree) : Prop where
  /-- Relative paths begin at the same place. -/
  here : t'.here = t.here
  /-- What is a directory stays one. -/
  directory : ∀ l, t.node? l = some .directory → t'.node? l = some .directory

namespace KeepsDirectories

/-- A directory is not lost if the node is put elsewhere. -/
theorem put (h : t.node? l ≠ some .directory) (n : Node) : t.KeepsDirectories (t.put l n) where
  here := rfl
  directory l' hl' := by
    have hne : l' ≠ l := by
      rintro rfl
      exact h hl'
    rw [node?_put_of_ne hne, hl']

theorem enter (h : t.KeepsDirectories t') {piece : Piece} (he : t.enter l piece = .ok l') :
    t'.enter l piece = .ok l' := by
  rw [enter_eq_ok_iff] at he ⊢
  split_ifs at he ⊢
  · exact he
  · exact he
  · obtain ⟨hshort, hdir, hl'⟩ := he
    exact ⟨hshort, h.directory _ hdir, hl'⟩

theorem foldlM_enter (h : t.KeepsDirectories t') {pieces : List Piece}
    (hw : pieces.foldlM t.enter l = .ok l') : pieces.foldlM t'.enter l = .ok l' := by
  induction pieces generalizing l with
  | nil => exact hw
  | cons piece pieces ih =>
    rw [List.foldlM_cons, bind_eq_ok_iff] at hw ⊢
    obtain ⟨k, he, hw⟩ := hw
    exact ⟨k, h.enter he, ih hw⟩

theorem targetOf (h : t.KeepsDirectories t') {reversed : List Piece} {x : Target}
    (hx : t.targetOf l reversed = .ok x) : t'.targetOf l reversed = .ok x := by
  rw [Tree.targetOf] at hx ⊢
  cases hr : reversed.dropWhile List.isEmpty with
  | nil =>
    rw [hr] at hx
    exact hx
  | cons name before =>
    rw [hr] at hx
    dsimp only at hx ⊢
    rw [bind_eq_ok_iff] at hx ⊢
    obtain ⟨k, hw, hx⟩ := hx
    exact ⟨k, h.foldlM_enter hw, hx⟩

/-- **A path leads where it led** in a tree that keeps the directories. -/
theorem target (h : t.KeepsDirectories t') {x : Target} (hx : t.target p = .ok x) :
    t'.target p = .ok x := by
  rw [Tree.target] at hx ⊢
  rw [h.here]
  -- a path that leads nowhere for its text alone is excluded by the hypothesis
  split_ifs at hx ⊢
  all_goals exact h.targetOf hx

theorem leadsTo (h : t.KeepsDirectories t') (hl : t.LeadsTo p l) : t'.LeadsTo p l := by
  obtain ⟨x, hx, hloc⟩ := hl
  exact ⟨x, h.target hx, hloc⟩

end KeepsDirectories

/-! ### Reading and writing -/

theorem read_eq_ok_iff {content : List UInt8} : t.read p = .ok content ↔ ∃ l name,
    t.target p = .ok (.entry l name false) ∧ checkName name = .ok () ∧
      t.node? (l ++ [name]) = some (.file content) := by
  rw [read]
  rcases t.target p with e | ⟨l⟩ | ⟨l, name, slash⟩
  · simp [bind, Except.bind]
  · simp [bind, Except.bind]
  · rcases hc : checkName name with e | ⟨⟩
    · simp [bind, Except.bind, hc]
    · rcases hn : t.node? (l ++ [name]) with _ | ⟨content'⟩ | _ <;> cases slash <;>
        simp [bind, Except.bind, hc, hn]

/-- Writing puts a file where the path leads, unless a directory is there. -/
theorem write_eq_ok_iff {content : List UInt8} : t.write p content = .ok t' ↔ ∃ l name,
    t.target p = .ok (.entry l name false) ∧ checkName name = .ok () ∧
      t.node? (l ++ [name]) ≠ some .directory ∧ t' = t.put (l ++ [name]) (.file content) := by
  rw [write]
  rcases t.target p with e | ⟨l⟩ | ⟨l, name, slash⟩
  · simp [bind, Except.bind]
  · simp [bind, Except.bind]
  · rcases hc : checkName name with e | ⟨⟩
    · cases slash <;> simp [bind, Except.bind, hc]
    · rcases hn : t.node? (l ++ [name]) with _ | ⟨content'⟩ | _ <;> cases slash <;>
        simp [bind, Except.bind, hc, hn, eq_comm]

/-- Creating puts a directory where the path leads, if nothing is there. -/
theorem createDirectory_eq_ok_iff : t.createDirectory p = .ok t' ↔ ∃ l name slash,
    t.target p = .ok (.entry l name slash) ∧ checkName name = .ok () ∧
      t.node? (l ++ [name]) = none ∧ t' = t.put (l ++ [name]) .directory := by
  rw [createDirectory]
  rcases t.target p with e | ⟨l⟩ | ⟨l, name, slash⟩
  · simp [bind, Except.bind]
  · simp [bind, Except.bind]
  · rcases hc : checkName name with e | ⟨⟩
    · simp [bind, Except.bind, hc]
    · rcases hn : t.node? (l ++ [name]) with _ | n
      · simp [bind, Except.bind, hc, hn, eq_comm]
      · simp [bind, Except.bind, hc, hn]

/-- A name behind a location is not the root. -/
theorem append_name_ne_nil (l : Location) (name : Piece) : l ++ [name] ≠ [] :=
  List.append_ne_nil_of_right_ne_nil l (List.cons_ne_nil name [])

/-- Below the working directory of an empty tree there is nothing. -/
theorem node?_empty (here : Location) (name : Piece) :
    (empty here).node? (here ++ [name]) = none := by
  rw [node?, if_neg (append_name_ne_nil here name), List.lookup_eq_none_iff]
  intro e he
  rw [empty, List.mem_map] at he
  obtain ⟨n, -, rfl⟩ := he
  rw [bne_iff_ne]
  intro h
  have hlength := congrArg List.length h
  simp only [List.length_append, List.length_take, List.length_singleton] at hlength
  omega

section Written

variable {content : List UInt8}

theorem keepsDirectories_of_write (h : t.write p content = .ok t') : t.KeepsDirectories t' := by
  obtain ⟨l, name, -, -, hn, rfl⟩ := write_eq_ok_iff.1 h
  exact .put hn _

/-- What was written is read back. -/
theorem read_write (h : t.write p content = .ok t') : t'.read p = .ok content := by
  have hkeeps := keepsDirectories_of_write h
  obtain ⟨l, name, ht, hc, -, rfl⟩ := write_eq_ok_iff.1 h
  exact read_eq_ok_iff.2 ⟨l, name, hkeeps.target ht, hc, node?_put (append_name_ne_nil l name) _ _⟩

/-- What is written last counts. -/
theorem exists_write_of_write (h : t.write p content = .ok t') (content' : List UInt8) :
    ∃ t'', t.write p content' = .ok t'' ∧ t'.write p content' = .ok t'' := by
  have hkeeps := keepsDirectories_of_write h
  obtain ⟨l, name, ht, hc, hn, rfl⟩ := write_eq_ok_iff.1 h
  refine ⟨t.put (l ++ [name]) (.file content'), ?_, ?_⟩
  · exact write_eq_ok_iff.2 ⟨l, name, ht, hc, hn, rfl⟩
  · refine write_eq_ok_iff.2 ⟨l, name, hkeeps.target ht, hc, ?_, (put_put t _ _ _).symm⟩
    simp [node?_put (append_name_ne_nil l name)]

end Written

/-! ### Making directories -/

/-- In `t'` there is a directory where nothing stood in `t`, and one of the paths leads to it. -/
def NewDirectory (ps : List Path) (t t' : Tree) (l : Location) : Prop :=
  t.node? l = none ∧ t'.node? l = some .directory ∧ ∃ p ∈ ps, t'.LeadsTo p l

/-- The tree `t'` is `t` with new directories to which some of the paths lead. -/
structure Extends (ps : List Path) (t t' : Tree) : Prop where
  /-- The working directory is the same. -/
  here : t'.here = t.here
  /-- Every other location is as it was. -/
  node : ∀ l, t'.node? l = t.node? l ∨ NewDirectory ps t t' l

namespace Extends

theorem refl (ps : List Path) (t : Tree) : Extends ps t t := ⟨rfl, fun _ => Or.inl rfl⟩

theorem keepsDirectories (h : Extends ps t t') : t.KeepsDirectories t' where
  here := h.here
  directory l hl := by
    rcases h.node l with hsame | ⟨hnone, -, -⟩
    · rw [hsame, hl]
    · rw [hnone] at hl
      cases hl

/-- The files are the same. -/
theorem node?_eq_file_iff (h : Extends ps t t') {content : List UInt8} :
    t'.node? l = some (.file content) ↔ t.node? l = some (.file content) := by
  rcases h.node l with hsame | ⟨hnone, hdir, -⟩
  · rw [hsame]
  · rw [hnone, hdir]
    simp

theorem mono {qs : List Path} (h : Extends ps t t') (hps : ps ⊆ qs) : Extends qs t t' where
  here := h.here
  node l := by
    rcases h.node l with hsame | ⟨hnone, hdir, p, hp, hl⟩
    · exact Or.inl hsame
    · exact Or.inr ⟨hnone, hdir, p, hps hp, hl⟩

theorem trans (h : Extends ps t t') (h' : Extends ps t' t'') : Extends ps t t'' where
  here := h'.here.trans h.here
  node l := by
    rcases h'.node l with hsame' | ⟨hnone', hdir', hp'⟩
    · rcases h.node l with hsame | ⟨hnone, hdir, p, hp, hl⟩
      · exact Or.inl (hsame'.trans hsame)
      · exact Or.inr ⟨hnone, hsame'.trans hdir, p, hp, h'.keepsDirectories.leadsTo hl⟩
    · -- what is new in the second step was not there before the first
      rcases h.node l with hsame | ⟨-, hdir, -⟩
      · exact Or.inr ⟨hsame ▸ hnone', hdir', hp'⟩
      · rw [hdir] at hnone'
        cases hnone'

theorem createDirectory (hp : p ∈ ps) (h : t.createDirectory p = .ok t') : Extends ps t t' := by
  obtain ⟨l, name, slash, ht, -, hn, rfl⟩ := createDirectory_eq_ok_iff.1 h
  have hnew := node?_put (append_name_ne_nil l name) t .directory
  have hkeeps : t.KeepsDirectories (t.put (l ++ [name]) .directory) := by
    refine .put ?_ _
    simp [hn]
  refine ⟨rfl, fun k => ?_⟩
  by_cases hk : k = l ++ [name]
  · subst hk
    exact Or.inr ⟨hn, hnew, p, hp, _, hkeeps.target ht, rfl⟩
  · exact Or.inl (node?_put_of_ne hk t _)

theorem settleDirectory (hp : p ∈ ps) (t : Tree) : Extends ps t (t.settleDirectory p).tree := by
  rw [Tree.settleDirectory]
  split
  · next t' h => exact createDirectory hp h
  · exact refl ps t

/-- Making a chain of directories adds nothing but directories of the chain, even if it fails. -/
theorem createChain (ps : List Path) (t : Tree) : Extends ps t (t.createChain ps).tree := by
  induction ps generalizing t with
  | nil => exact refl [] t
  | cons p ps ih =>
    have hps : ps ⊆ p :: ps := List.subset_cons_self p ps
    rw [Tree.createChain]
    split_ifs
    · exact refl _ t
    · split
      · -- what the directory lies in is made first
        dsimp only
        split
        · exact (ih t).mono hps
        · exact ((ih t).mono hps).trans (settleDirectory List.mem_cons_self _)
      · exact settleDirectory List.mem_cons_self t

end Extends

/-! ### Directories that are there -/

/-- A directory that is there is not created: that fails, but not for something that is missing. -/
theorem createDirectory_of_isDirectory (h : t.isDirectory p = true) :
    ∃ e, t.createDirectory p = .error e ∧ e ≠ .notFound := by
  rw [isDirectory] at h
  rw [createDirectory]
  rcases ht : t.target p with e | ⟨l⟩ | ⟨l, name, slash⟩ <;> rw [ht] at h
  · cases h
  · exact ⟨.alreadyExists, rfl, by decide⟩
  · rw [decide_eq_true_eq] at h
    simp only [bind, Except.bind, h, checkName]
    split_ifs
    · exact ⟨.nameTooLong, rfl, by decide⟩
    · exact ⟨.alreadyExists, rfl, by decide⟩

theorem settleDirectory_of_isDirectory (h : t.isDirectory p = true) :
    t.settleDirectory p = ⟨t, none⟩ := by
  obtain ⟨e, he, -⟩ := createDirectory_of_isDirectory h
  rw [settleDirectory, he, h]
  rfl

/-- A directory cannot be settled if it is neither created nor there; then nothing is changed. -/
theorem settleDirectory_eq_some_iff {e : Failure} : t.settleDirectory p = ⟨t', some e⟩ ↔
    t.createDirectory p = .error e ∧ t.isDirectory p = false ∧ t' = t := by
  rw [settleDirectory]
  cases t.createDirectory p with
  | ok u => simp
  | error e' => cases t.isDirectory p <;> simp [and_comm, eq_comm]

/-- What has been settled is a directory. -/
theorem isDirectory_of_settleDirectory (h : t.settleDirectory p = ⟨t', none⟩) :
    t'.isDirectory p = true := by
  rw [settleDirectory] at h
  cases hc : t.createDirectory p with
  | ok u =>
    rw [hc] at h
    cases h
    obtain ⟨l, name, slash, ht, -, hn, rfl⟩ := createDirectory_eq_ok_iff.1 hc
    have hkeeps : t.KeepsDirectories (t.put (l ++ [name]) .directory) := .put (by simp [hn]) _
    rw [isDirectory, hkeeps.target ht]
    exact decide_eq_true (node?_put (append_name_ne_nil l name) t _)
  | error e =>
    rw [hc] at h
    obtain ⟨rfl, hdir⟩ : t = t' ∧ t.isDirectory p = true := by simpa using h
    exact hdir

/-! ### Chains of directories -/

theorem createChain_of_isEmpty (h : p.isEmpty = true) (t : Tree) (ps : List Path) :
    t.createChain (p :: ps) = ⟨t, none⟩ := by
  rw [createChain, if_pos h]

/-- If something is missing, the rest of the chain is made first. -/
theorem createChain_of_notFound (hp : p.isEmpty = false)
    (h : t.createDirectory p = .error .notFound) (ps : List Path) :
    t.createChain (p :: ps) = match t.createChain ps with
      | ⟨u, none⟩ => u.settleDirectory p
      | ⟨u, some e⟩ => ⟨u, some e⟩ := by
  rw [createChain, if_neg (by simp [hp]), h]
  rcases t.createChain ps with ⟨u, _ | e⟩ <;> rfl

theorem createChain_of_ne_notFound (hp : p.isEmpty = false)
    (h : t.createDirectory p ≠ .error .notFound) (ps : List Path) :
    t.createChain (p :: ps) = t.settleDirectory p := by
  rw [createChain, if_neg (by simp [hp])]
  split
  · next hc => exact absurd hc h
  · rfl

/-- Nothing is made for a directory that is there. -/
theorem createChain_of_isDirectory (h : t.isDirectory p = true) (ps : List Path) :
    t.createChain (p :: ps) = ⟨t, none⟩ := by
  cases hp : p.isEmpty with
  | true => exact createChain_of_isEmpty hp t ps
  | false =>
    obtain ⟨e, he, hne⟩ := createDirectory_of_isDirectory h
    have hc : t.createDirectory p ≠ .error .notFound := by
      rw [he]
      exact fun hnot => hne (Except.error.inj hnot)
    rw [createChain_of_ne_notFound hp hc, settleDirectory_of_isDirectory h]

/-- When a chain has been made, its first path leads to a directory. -/
theorem isDirectory_of_createChain (hp : p.isEmpty = false)
    (h : t.createChain (p :: ps) = ⟨t', none⟩) : t'.isDirectory p = true := by
  by_cases hc : t.createDirectory p = .error .notFound
  · rw [createChain_of_notFound hp hc] at h
    rcases hm : t.createChain ps with ⟨u, _ | e⟩
    · rw [hm] at h
      exact isDirectory_of_settleDirectory h
    · rw [hm] at h
      cases h
  · rw [createChain_of_ne_notFound hp hc] at h
    exact isDirectory_of_settleDirectory h

/-- A chain that has been made is there. -/
theorem createChain_createChain (h : t.createChain (p :: ps) = ⟨t', none⟩) :
    t'.createChain (p :: ps) = ⟨t', none⟩ := by
  cases hp : p.isEmpty with
  | true => exact createChain_of_isEmpty hp t' ps
  | false => exact createChain_of_isDirectory (isDirectory_of_createChain hp h) ps

end Reckoner.Files.Tree
