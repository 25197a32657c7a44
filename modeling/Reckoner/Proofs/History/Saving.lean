import Reckoner.History
import Reckoner.Proofs.Files.Enclosing

/-!
# What saving does to the file tree

Saving has two steps: the directories that the file lies in are prepared, and the file is written.
The first step adds nothing but missing directories (`extends_prepare`), even if it stops half way;
the second puts one file or does nothing. So either the history is saved, its entries are in the
file and nothing else has changed but that directories have been made for it (`exists_filedAt`), or
it is not saved and no file has changed at all (`extends_of_error`).

What has been done is not done again. In the tree that saving leaves, the directories are there, so
saving to the same path once more gives what it would have given at first (`exists_save_of_save`);
and what could not be done then cannot be done now (`exists_save_of_error`). So a tree to which a
history was saved is as good as the tree before for whatever is saved to that path (`SaveAlike`).

A path that leads to a short name needs no preparation, so a history is always saved there unless a
directory has the name: to a file that can be read (`exists_save_of_read`), and to the usual file
where there is none yet (`exists_save_of_notFound`).
-/

namespace Reckoner.History

open Files Tree

variable {h : History} {t t' : Tree}

/-! ### The two steps -/

/-- Make the directories that the file lies in. -/
def prepare (h : History) (t : Tree) : Attempt :=
  match h.path.parent? with
  | none => ⟨t, none⟩
  | some dir => if dir.isEmpty then ⟨t, none⟩ else t.createDirectories dir

theorem writeFile_eq_none_iff :
    h.writeFile t = ⟨t', none⟩ ↔ t.write h.path (fileBytes h.entries) = .ok t' := by
  rw [writeFile]
  split
  · next u hu => simp [hu]
  · next e he => simp [he]

theorem tree_writeFile_of_error {e : SaveError} (hs : (h.writeFile t).error = some e) :
    (h.writeFile t).tree = t := by
  rw [writeFile] at hs ⊢
  split at hs
  · cases hs
  · rfl

/-- When the directories are there, the file is written. -/
theorem save_of_prepare {u : Tree} (hu : h.prepare t = ⟨u, none⟩) : h.save t = h.writeFile u := by
  rw [prepare] at hu
  rw [save]
  cases hp : h.path.parent? with
  | none =>
    rw [hp] at hu
    cases hu
    rfl
  | some dir =>
    rw [hp] at hu
    dsimp only at hu ⊢
    split_ifs at hu ⊢ with hdir
    · cases hu
      rfl
    · rw [hu]

/-- When they cannot be made, nothing else is done. -/
theorem exists_save_of_prepare {u : Tree} {e : Failure} (hu : h.prepare t = ⟨u, some e⟩) :
    ∃ e', h.save t = ⟨u, some e'⟩ := by
  rw [prepare] at hu
  rw [save]
  cases hp : h.path.parent? with
  | none =>
    rw [hp] at hu
    cases hu
  | some dir =>
    rw [hp] at hu
    dsimp only at hu ⊢
    split_ifs at hu ⊢ with hdir
    · cases hu
    · exact ⟨.directory dir e, by rw [hu]⟩

/-- A history is saved if its directories can be made and then its file written. -/
theorem save_eq_none_iff : h.save t = ⟨t', none⟩ ↔ (h.prepare t).failure = none ∧
    (h.prepare t).tree.write h.path (fileBytes h.entries) = .ok t' := by
  rcases hu : h.prepare t with ⟨u, _ | e⟩
  · rw [save_of_prepare hu, writeFile_eq_none_iff]
    simp
  · obtain ⟨e', hs⟩ := exists_save_of_prepare hu
    simp [hs]

/-- If a history is not saved, directories may have been made. -/
theorem tree_save_of_error {e : SaveError} (hs : (h.save t).error = some e) :
    (h.save t).tree = (h.prepare t).tree := by
  rcases hu : h.prepare t with ⟨u, _ | e'⟩
  · rw [save_of_prepare hu] at hs ⊢
    exact tree_writeFile_of_error hs
  · obtain ⟨e'', hs'⟩ := exists_save_of_prepare hu
    rw [hs']

/-! ### What is changed -/

/-- Preparing adds nothing but directories to which ancestors of the path lead. -/
theorem extends_prepare (h : History) (t : Tree) :
    Extends h.path.ancestors t (h.prepare t).tree := by
  rw [prepare]
  cases hp : h.path.parent? with
  | none => exact .refl _ t
  | some dir =>
    dsimp only
    split_ifs
    · exact .refl _ t
    · rw [Path.ancestors_of_parent? hp]
      exact .createChain _ t

/-- The tree `t'` is `t` with the entries in the file at `l`, each with a line feed behind it, and
with directories that the file needed. -/
structure FiledAt (h : History) (t t' : Tree) (l : Location) : Prop where
  /-- The working directory is the same. -/
  here : t'.here = t.here
  /-- It is the file of the history. -/
  leadsTo : t'.LeadsTo h.path l
  /-- The file has the entries and nothing else. -/
  content : t'.node? l =
    some (.file (Text.Utf8.encode (h.entries.flatMap fun e => e.toList ++ ['\n'])))
  /-- It takes the place of nothing but a file. -/
  notDirectory : t.node? l ≠ some .directory
  /-- Everything else is as it was, or it is a missing directory above the file. -/
  other : ∀ k, k ≠ l → t'.node? k = t.node? k ∨ NewDirectory h.path.ancestors t t' k

/-- A saved history is in its file. -/
theorem exists_filedAt (hs : h.save t = ⟨t', none⟩) : ∃ l, h.FiledAt t t' l := by
  obtain ⟨-, hw⟩ := save_eq_none_iff.1 hs
  have hprep := extends_prepare h t
  have hkeeps := keepsDirectories_of_write hw
  obtain ⟨l, name, ht, -, hn, rfl⟩ := write_eq_ok_iff.1 hw
  refine ⟨l ++ [name], hprep.here, ⟨_, hkeeps.target ht, rfl⟩,
    node?_put (append_name_ne_nil l name) _ _, ?_, ?_⟩
  · exact fun hdir => hn (hprep.keepsDirectories.directory _ hdir)
  · intro k hk
    rw [NewDirectory, node?_put_of_ne hk]
    rcases hprep.node k with hsame | ⟨hnone, hdir, p, hp, hl⟩
    · exact Or.inl hsame
    · exact Or.inr ⟨hnone, hdir, p, hp, hkeeps.leadsTo hl⟩

theorem extends_of_error {e : SaveError} (hs : (h.save t).error = some e) :
    Extends h.path.ancestors t (h.save t).tree := by
  rw [tree_save_of_error hs]
  exact extends_prepare h t

/-- Whatever saving changes stands where the path or an ancestor of it leads. -/
theorem node?_save (h : History) (t : Tree) (l : Location) :
    (h.save t).tree.node? l = t.node? l ∨
      ∃ p ∈ h.path :: h.path.ancestors, (h.save t).tree.LeadsTo p l := by
  cases hs : h.save t with
  | mk u e =>
    cases e with
    | none =>
      obtain ⟨k, hk⟩ := exists_filedAt hs
      by_cases hl : l = k
      · exact Or.inr ⟨h.path, List.mem_cons_self, hl ▸ hk.leadsTo⟩
      · refine (hk.other l hl).imp_right ?_
        rintro ⟨-, -, p, hp, hlead⟩
        exact ⟨p, List.mem_cons_of_mem _ hp, hlead⟩
    | some e =>
      have hextends := extends_of_error (e := e) (by rw [hs])
      rw [hs] at hextends
      refine (hextends.node l).imp_right ?_
      rintro ⟨-, -, p, hp, hlead⟩
      exact ⟨p, List.mem_cons_of_mem _ hp, hlead⟩

/-! ### What need not be done -/

/-- For a path that leads to a name there is nothing to prepare. -/
theorem prepare_of_target {l : Location} {name : Piece}
    (ht : t.target h.path = .ok (.entry l name false)) : h.prepare t = ⟨t, none⟩ := by
  rw [prepare]
  cases hp : h.path.parent? with
  | none => rfl
  | some dir =>
    dsimp only
    split_ifs with hdir
    · rfl
    · have hthere := (isDirectory_of_parent? ht hp).resolve_left hdir
      exact createChain_of_isDirectory hthere dir.ancestors

/-- In a tree to which a history was saved there is nothing to prepare. -/
theorem prepare_of_save (hs : h.save t = ⟨t', none⟩) : h.prepare t' = ⟨t', none⟩ := by
  obtain ⟨-, hw⟩ := save_eq_none_iff.1 hs
  have hkeeps := keepsDirectories_of_write hw
  obtain ⟨l, name, ht, -⟩ := write_eq_ok_iff.1 hw
  exact prepare_of_target (hkeeps.target ht)

/-- **What is saved last counts**: it makes no difference that another history was saved before to
the same path. -/
theorem exists_save_of_save {h' : History} (hs : h.save t = ⟨t', none⟩) (hp : h'.path = h.path) :
    ∃ t'', h'.save t = ⟨t'', none⟩ ∧ h'.save t' = ⟨t'', none⟩ := by
  have hprepare (u : Tree) : h'.prepare u = h.prepare u := by rw [prepare, prepare, hp]
  obtain ⟨hnone, hw⟩ := save_eq_none_iff.1 hs
  obtain ⟨t'', hfirst, hagain⟩ := exists_write_of_write hw (fileBytes h'.entries)
  refine ⟨t'', ?_, ?_⟩
  · rw [save_eq_none_iff, hprepare, hp]
    exact ⟨hnone, hfirst⟩
  · rw [save_eq_none_iff, hprepare, prepare_of_save hs, hp]
    exact ⟨rfl, hagain⟩

/-- Saving at once again changes nothing. -/
theorem save_save (hs : h.save t = ⟨t', none⟩) : h.save t' = ⟨t', none⟩ := by
  obtain ⟨t'', hfirst, hagain⟩ := exists_save_of_save hs rfl
  rw [hs] at hfirst
  cases hfirst
  exact hagain

/-- Directories that have been prepared are there, and what could not be prepared cannot be. -/
theorem prepare_prepare {u : Tree} {e : Option Failure} (hu : h.prepare t = ⟨u, e⟩) :
    ∃ e', h.prepare u = ⟨u, e'⟩ ∧ (e' = none ↔ e = none) := by
  rw [prepare] at hu ⊢
  cases hp : h.path.parent? with
  | none =>
    rw [hp] at hu
    cases hu
    exact ⟨none, rfl, Iff.rfl⟩
  | some dir =>
    rw [hp] at hu
    dsimp only at hu ⊢
    split_ifs at hu ⊢ with hdir
    · cases hu
      exact ⟨none, rfl, Iff.rfl⟩
    · cases e with
      | none => exact ⟨none, createChain_createChain hu, Iff.rfl⟩
      | some e =>
        obtain ⟨-, e', hagain⟩ := createChain_again rfl hu
        exact ⟨some e', hagain, by simp⟩

/-- **A history that could not be saved cannot be saved at a second attempt**, and that changes
nothing more. -/
theorem exists_save_of_error {e : SaveError} (hs : h.save t = ⟨t', some e⟩) :
    ∃ e', h.save t' = ⟨t', some e'⟩ := by
  have htree := tree_save_of_error (h := h) (t := t) (e := e) (by rw [hs])
  rcases hu : h.prepare t with ⟨u, _ | e'⟩
  · -- the directories are there, so it is the file that could not be written
    rw [hs, hu] at htree
    cases htree
    obtain ⟨e', hagain, hnone⟩ := prepare_prepare hu
    rw [hnone.2 rfl] at hagain
    rw [save_of_prepare hu] at hs
    exact ⟨e, by rw [save_of_prepare hagain, hs]⟩
  · rw [hs, hu] at htree
    cases htree
    obtain ⟨_ | e'', hagain, hnone⟩ := prepare_prepare hu
    · cases hnone.1 rfl
    · exact exists_save_of_prepare hagain

/-! ### When a history is saved -/

/-- A history is saved to a name that is short enough, unless it is that of a directory. -/
theorem exists_save_of_target {l : Location} {name : Piece}
    (ht : t.target h.path = .ok (.entry l name false)) (hc : checkName name = .ok ())
    (hn : t.node? (l ++ [name]) ≠ some .directory) : ∃ t', h.save t = ⟨t', none⟩ := by
  refine ⟨t.put (l ++ [name]) (.file (fileBytes h.entries)), ?_⟩
  rw [save_eq_none_iff, prepare_of_target ht]
  exact ⟨rfl, write_eq_ok_iff.2 ⟨l, name, ht, hc, hn, rfl⟩⟩

/-- A history is always saved to a file that can be read. -/
theorem exists_save_of_read {content : List UInt8} (hr : t.read h.path = .ok content) :
    ∃ t', h.save t = ⟨t', none⟩ := by
  obtain ⟨l, name, ht, hc, hn⟩ := read_eq_ok_iff.1 hr
  exact exists_save_of_target ht hc (by simp [hn])

/-- The path that is used unless another is chosen is a name in the working directory. -/
theorem target_defaultPath (t : Tree) :
    t.target defaultPath = .ok (.entry t.here defaultPath.chars false) := by
  rfl

theorem checkName_defaultPath : checkName defaultPath.chars = .ok () := by
  decide +kernel

theorem read_defaultPath (t : Tree) : t.read defaultPath =
    match t.node? (t.here ++ [defaultPath.chars]) with
    | none => .error .notFound
    | some .directory => .error .isDirectory
    | some (.file content) => .ok content := by
  rw [Tree.read, target_defaultPath]
  simp only [bind, Except.bind, checkName_defaultPath]
  rfl

/-- In an empty directory there is nothing at that path. -/
theorem read_defaultPath_empty (here : Location) :
    (Tree.empty here).read defaultPath = .error .notFound := by
  have hn : (Tree.empty here).node? ((Tree.empty here).here ++ [defaultPath.chars]) = none :=
    node?_empty here _
  rw [read_defaultPath, hn]

/-- A history is saved to that path if there is nothing yet. -/
theorem exists_save_of_notFound (hp : h.path = defaultPath)
    (hr : t.read defaultPath = .error .notFound) : ∃ t', h.save t = ⟨t', none⟩ := by
  have ht : t.target h.path = .ok (.entry t.here defaultPath.chars false) := by
    rw [hp, target_defaultPath]
  refine exists_save_of_target ht checkName_defaultPath fun hdir => ?_
  rw [read_defaultPath, hdir] at hr
  cases hr

/-! ### Trees that differ in the file alone -/

/-- Whatever is saved to the path, it is saved in both trees, and then they are the same. -/
def SaveAlike (p : Path) (t u : Tree) : Prop :=
  ∀ h : History, h.path = p → ∃ t', h.save t = ⟨t', none⟩ ∧ h.save u = ⟨t', none⟩

theorem saveAlike_of_save (hs : h.save t = ⟨t', none⟩) : SaveAlike h.path t t' :=
  fun _ hp => exists_save_of_save hs hp

theorem SaveAlike.tree_save {p : Path} {u : Tree} (hu : SaveAlike p t u) (hp : h.path = p) :
    (h.save u).tree = (h.save t).tree := by
  obtain ⟨t', ht, hu⟩ := hu h hp
  rw [ht, hu]

/-- Saving makes no difference between them. -/
theorem SaveAlike.save {p : Path} {u : Tree} (hu : SaveAlike p t u) (hp : h.path = p) :
    SaveAlike p t (h.save u).tree := by
  obtain ⟨t', ht, hu⟩ := hu h hp
  rw [hu]
  exact hp ▸ saveAlike_of_save ht

end Reckoner.History
