import Mathlib.Data.List.Basic
import Mathlib.Data.List.Infix
import Reckoner.History
import Reckoner.Proofs.Files.Path
import Reckoner.Proofs.Session.Lines
import Reckoner.Proofs.Text.Blank

/-!
# Choosing the file of the history

A blank answer chooses nothing, and blanks around an answer do not count. An answer with a slash
spells out a path: it is taken as it is if it ends in the extension, and otherwise the name of the
file in a directory is put behind it (`spelled`). Either way the path begins as the answer does and
ends in the extension, so it spells out itself. An answer without a slash is a name, and the path is
that of the working directory with a slash and the name behind it; the slash is left out where none
is needed (`Path.separator`).
-/

namespace Reckoner

open Files Text

namespace Files

/-- A text falls into the pieces before a slash and those behind it. -/
theorem splitSlashes_append_cons (cs ds : List Char) :
    splitSlashes (cs ++ '/' :: ds) = splitSlashes cs ++ splitSlashes ds := by
  rw [splitSlashes_eq_splitOn, List.splitOn_append_cons_self, splitSlashes_eq_splitOn,
    splitSlashes_eq_splitOn]

namespace Path

variable {p q : Path} {name : Piece}

/-- What stands between a path and a name in it. -/
def separator (p : Path) : List Char :=
  if p.isEmpty || p.chars.getLast? = some '/' then [] else ['/']

theorem ofChars_chars (p : Path) : ofChars p.chars = p := by
  rw [ofChars, chars, String.ofList_toList]

theorem chars_join (hq : q.isAbsolute = false) (p : Path) :
    (p.join q).chars = p.chars ++ p.separator ++ q.chars := by
  rw [join, if_neg (Bool.eq_false_iff.1 hq), separator]
  split_ifs
  · rw [chars_ofChars, List.append_nil]
  · rw [chars_ofChars, List.append_assoc]
    rfl

theorem isAbsolute_of_not_mem (h : '/' ∉ name) : (ofChars name).isAbsolute = false := by
  rw [isAbsolute, chars_ofChars, decide_eq_false_iff_not]
  exact fun hhead => h (List.mem_of_mem_head? hhead)

/-- A path with its separator is nothing or ends in a slash. -/
theorem chars_append_separator (p : Path) :
    p.chars ++ p.separator = [] ∨ ∃ cs, p.chars ++ p.separator = cs ++ ['/'] := by
  rw [separator]
  split_ifs with h
  · rw [Bool.or_eq_true, isEmpty, List.isEmpty_iff, decide_eq_true_iff,
      List.getLast?_eq_some_iff] at h
    rwa [List.append_nil]
  · exact Or.inr ⟨p.chars, rfl⟩

/-- The last piece of a name in a path is the name. -/
theorem getLast?_splitSlashes_join (p : Path) (h : '/' ∉ name) :
    (splitSlashes (p.join (ofChars name)).chars).getLast? = some name := by
  have hname : splitSlashes name = [name] := splitSlashes_of_not_mem h
  rw [chars_join (isAbsolute_of_not_mem h), chars_ofChars]
  obtain hnil | ⟨cs, hcs⟩ := p.chars_append_separator
  · rw [hnil, List.nil_append, hname, List.getLast?_singleton]
  · rw [hcs, List.append_assoc, List.singleton_append, splitSlashes_append_cons, hname,
      List.getLast?_concat]

end Path

end Files

namespace History

variable {cs : List Char} {answer : String} {cwd p : Path}

/-! ### Paths that are spelled out -/

/-- The path that a text with a slash spells out. -/
def spelled (cs : List Char) : Path :=
  if extension.isSuffixOf cs then .ofChars cs else (Path.ofChars cs).join fileInDirectory

theorem resolvePath_of_blank (h : AllBlank answer.toList) (cwd : Path) :
    resolvePath answer cwd = none := by
  rw [resolvePath, trim_eq_nil_iff.2 h]
  exact if_pos rfl

/-- An answer with a slash means the path that it spells out, whatever the working directory is. -/
theorem resolvePath_of_slash (h : '/' ∈ trim answer.toList) (cwd : Path) :
    resolvePath answer cwd = some (spelled (trim answer.toList)) := by
  have hne : trim answer.toList ≠ [] := List.ne_nil_of_mem h
  simp only [resolvePath, if_neg hne, List.contains_iff_mem, if_pos h, spelled]
  split_ifs <;> rfl

/-- Any other answer that is not blank is a name in the working directory. -/
theorem resolvePath_of_not_slash (hne : trim answer.toList ≠ []) (h : '/' ∉ trim answer.toList)
    (cwd : Path) : resolvePath answer cwd = some (cwd.join (.ofChars (trim answer.toList))) := by
  simp only [resolvePath, if_neg hne, List.contains_iff_mem, if_neg h]

/-- Whatever is spelled out begins as the text does. -/
theorem prefix_spelled (cs : List Char) : cs <+: (spelled cs).chars := by
  rw [spelled]
  split_ifs
  · rw [Path.chars_ofChars]
  · rw [Path.chars_join (by decide), Path.chars_ofChars, List.append_assoc]
    exact List.prefix_append _ _

/-- It ends in the extension. -/
theorem extension_suffix_spelled (cs : List Char) : extension <:+ (spelled cs).chars := by
  rw [spelled]
  split_ifs with h
  · rw [Path.chars_ofChars]
    exact List.isSuffixOf_iff_suffix.1 h
  · have hname : extension <:+ fileInDirectory.chars := by decide
    rw [Path.chars_join (by decide)]
    exact hname.trans (List.suffix_append _ _)

theorem getLast?_of_extension (h : extension <:+ cs) : cs.getLast? = some 'g' := by
  obtain ⟨ds, rfl⟩ := h
  rw [List.getLast?_append]
  rfl

/-- A path that was spelled out spells out itself. -/
theorem spelled_spelled (cs : List Char) : spelled (spelled cs).chars = spelled cs := by
  rw [spelled, if_pos (List.isSuffixOf_iff_suffix.2 (extension_suffix_spelled cs)),
    Path.ofChars_chars]

/-- It has no blanks at its ends if the text has none. -/
theorem trim_spelled (hne : cs ≠ []) (h : trim cs = cs) :
    trim (spelled cs).chars = (spelled cs).chars := by
  refine trim_of_not_blank ?_ ?_
  · intro c hc
    cases cs with
    | nil => exact absurd rfl hne
    | cons d ds =>
      obtain ⟨rest, hrest⟩ := prefix_spelled (d :: ds)
      rw [← hrest] at hc
      cases hc
      exact isBlank_of_trim_eq h
  · intro c hc
    rw [getLast?_of_extension (extension_suffix_spelled cs)] at hc
    cases hc
    decide

/-- It does not end in a slash. -/
theorem getLast?_spelled_ne (cs : List Char) : (spelled cs).chars.getLast? ≠ some '/' := by
  rw [getLast?_of_extension (extension_suffix_spelled cs)]
  decide

/-! ### What an answer chooses -/

theorem resolvePath_eq_none_iff : resolvePath answer cwd = none ↔ AllBlank answer.toList := by
  constructor
  · intro h
    by_contra hblank
    have hne : trim answer.toList ≠ [] := fun hnil => hblank (trim_eq_nil_iff.1 hnil)
    by_cases hslash : '/' ∈ trim answer.toList
    · rw [resolvePath_of_slash hslash] at h
      cases h
    · rw [resolvePath_of_not_slash hne hslash] at h
      cases h
  · exact fun h => resolvePath_of_blank h cwd

/-- What is true of the path `p` that an answer chooses in a working directory. The blanks around
the answer do not count. -/
structure Chosen (answer : String) (cwd p : Path) : Prop where
  ne_nil : p.chars ≠ []
  getLast?_ne : p.chars.getLast? ≠ some '/'
  /-- An answer with a slash spells out a path to a file with the extension, which spells out
  itself, and the working directory does not matter. -/
  spelled : '/' ∈ trim answer.toList → '/' ∈ p.chars ∧ extension <:+ p.chars ∧
    ∀ dir, resolvePath answer dir = some p ∧ resolvePath p.text dir = some p
  /-- Any other answer is the last piece of the path, and the working directory stands before it. -/
  named : '/' ∉ trim answer.toList →
    (splitSlashes p.chars).getLast? = some (trim answer.toList) ∧
    p.chars = cwd.chars ++ cwd.separator ++ trim answer.toList

theorem chosen_spelled (h : '/' ∈ trim answer.toList) (cwd : Path) :
    Chosen answer cwd (spelled (trim answer.toList)) := by
  have hne : trim answer.toList ≠ [] := List.ne_nil_of_mem h
  have htrim := trim_spelled hne (trim_trim answer.toList)
  have hslash : '/' ∈ (spelled (trim answer.toList)).chars :=
    (prefix_spelled (trim answer.toList)).subset h
  refine ⟨List.ne_nil_of_mem hslash, getLast?_spelled_ne _,
    fun _ => ⟨hslash, extension_suffix_spelled _, fun dir => ⟨resolvePath_of_slash h dir, ?_⟩⟩,
    fun hnot => absurd h hnot⟩
  rw [resolvePath_of_slash (by rwa [← Path.chars, htrim]), ← Path.chars, htrim, spelled_spelled]

theorem chosen_join (hne : trim answer.toList ≠ []) (h : '/' ∉ trim answer.toList) (cwd : Path) :
    Chosen answer cwd (cwd.join (.ofChars (trim answer.toList))) := by
  have hchars : (cwd.join (.ofChars (trim answer.toList))).chars =
      cwd.chars ++ cwd.separator ++ trim answer.toList := by
    rw [Path.chars_join (Path.isAbsolute_of_not_mem h), Path.chars_ofChars]
  refine ⟨?_, ?_, fun hmem => absurd hmem h,
    fun _ => ⟨Path.getLast?_splitSlashes_join cwd h, hchars⟩⟩
  · rw [hchars]
    exact List.append_ne_nil_of_right_ne_nil _ hne
  · rw [hchars, List.getLast?_append_of_ne_nil _ hne]
    exact fun hlast => h (List.mem_of_getLast? hlast)

/-- **What an answer chooses.** A blank answer chooses no path and no other answer does so, and
blanks around an answer do not count. A path that is chosen has a last piece that is not empty. An
answer with a slash means the same path in every directory, and so does the text of that path, which
ends in the extension; any other answer is a name in the working directory. -/
theorem resolvePath_chosen (answer : String) (cwd : Path) :
    (resolvePath answer cwd = none ↔ AllBlank answer.toList) ∧
    (∀ as bs, AllBlank as → AllBlank bs →
      resolvePath (String.ofList (as ++ (answer.toList ++ bs))) cwd = resolvePath answer cwd) ∧
    ∀ p, resolvePath answer cwd = some p → Chosen answer cwd p := by
  refine ⟨resolvePath_eq_none_iff, fun as bs has hbs => ?_, fun p hp => ?_⟩
  · refine resolvePath_congr ?_ cwd
    rw [String.toList_ofList, trim_blank_append has, trim_append_blank _ hbs]
  · have hne : trim answer.toList ≠ [] := by
      intro hnil
      rw [resolvePath_of_blank (trim_eq_nil_iff.1 hnil)] at hp
      cases hp
    by_cases hslash : '/' ∈ trim answer.toList
    · rw [resolvePath_of_slash hslash] at hp
      cases hp
      exact chosen_spelled hslash cwd
    · rw [resolvePath_of_not_slash hne hslash] at hp
      cases hp
      exact chosen_join hne hslash cwd

/-- A directory that is spelled out between blanks, and a name. -/
theorem resolvePath_chosen_out :
    resolvePath " out/ " ⟨"/work"⟩ = some ⟨"out/log.log"⟩ ∧
    resolvePath "out/log.log" ⟨"/"⟩ = some ⟨"out/log.log"⟩ ∧
    resolvePath "mine.txt" ⟨"/work"⟩ = some ⟨"/work/mine.txt"⟩ ∧
    (splitSlashes "/work/mine.txt".toList).getLast? = some "mine.txt".toList := by
  have hout : resolvePath " out/ " ⟨"/work"⟩ = some ⟨"out/log.log"⟩ := by decide +kernel
  have hname : resolvePath "mine.txt" ⟨"/work"⟩ = some ⟨"/work/mine.txt"⟩ := by decide +kernel
  have hslash : '/' ∈ trim " out/ ".toList := by decide +kernel
  have hnot : '/' ∉ trim "mine.txt".toList := by decide +kernel
  have htrim : trim "mine.txt".toList = "mine.txt".toList := by decide +kernel
  have hspelled := ((resolvePath_chosen " out/ " ⟨"/work"⟩).2.2 _ hout).spelled hslash
  have hnamed := ((resolvePath_chosen "mine.txt" ⟨"/work"⟩).2.2 _ hname).named hnot
  rw [htrim] at hnamed
  exact ⟨hout, (hspelled.2.2 ⟨"/"⟩).2, hname, hnamed.1⟩

end History

end Reckoner
