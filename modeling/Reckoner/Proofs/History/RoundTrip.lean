import Reckoner.Proofs.History.Saving
import Reckoner.Proofs.Number.Notation
import Reckoner.Proofs.Text.Lines

/-!
# Saving and loading

Whatever is loaded behind a save is read from the bytes that were saved (`load_save`), so the round
trip is a matter of text alone: the lines of the entries with line feeds behind them. The entries
come back unchanged exactly when none contains a line feed or ends in a carriage return
(`entries_load_save_iff`). The entry for an expression on one line does neither (`entry_unbroken`).

The other way around, a file is loaded, saved and loaded again. Bytes that are not text are replaced
the first time and are text from then on. A loaded entry has no line feed, but it can end in a
carriage return, and each further round takes one away (`entries_load_save_load`).
-/

namespace Reckoner.History

open Files Tree Text

variable {h : History} {t t' : Tree} {p : Path} {content : List UInt8} {entries : List String}

/-! ### Entries as lines -/

theorem fileText_eq (entries : List String) :
    fileText entries = (entries.map String.toList).flatMap (· ++ ['\n']) := by
  rw [fileText, List.flatMap_map]

theorem map_ofList_eq_iff {ls : List (List Char)} :
    ls.map String.ofList = entries ↔ ls = entries.map String.toList := by
  constructor
  · rintro rfl
    simp [List.map_map, Function.comp_def]
  · rintro rfl
    simp [List.map_map, Function.comp_def]

theorem entriesOf_fileBytes (entries : List String) : entriesOf (fileBytes entries) =
    (lines ((entries.map String.toList).flatMap (· ++ ['\n']))).map String.ofList := by
  rw [entriesOf, fileBytes, Utf8.decodeLossy_encode, fileText_eq]

/-- Entries come back from their bytes exactly when they are lines that come back. -/
theorem entriesOf_fileBytes_eq_self_iff : entriesOf (fileBytes entries) = entries ↔
    ∀ e ∈ entries, '\n' ∉ e.toList ∧ e.toList.getLast? ≠ some '\r' := by
  rw [entriesOf_fileBytes, map_ofList_eq_iff, lines_flatMap_eq_iff, List.forall_mem_map]

/-- Entries without line feeds come back without the carriage returns at their ends. -/
theorem entriesOf_fileBytes_of_not_mem (hn : ∀ e ∈ entries, '\n' ∉ e.toList) :
    entriesOf (fileBytes entries) =
      entries.map fun e => String.ofList (dropFinalCr e.toList) := by
  rw [entriesOf_fileBytes, lines_flatMap (List.forall_mem_map.2 hn), List.map_map, List.map_map]
  rfl

/-- An entry for an expression on one line comes back from its bytes: it ends in a character of a
number, or in the blank before it. -/
theorem entry_unbroken {expression : String} (he : '\n' ∉ expression.toList) (value : Number) :
    '\n' ∉ (entry expression value).toList ∧
      (entry expression value).toList.getLast? ≠ some '\r' := by
  have hvalue (c : Char) (hc : Text.isBlank c = true) : c ∉ value.chars := by
    intro hmem
    rw [Number.isBlank_of_mem_chars hmem] at hc
    cases hc
  have hentry : (entry expression value).toList =
      expression.toList ++ [' ', '=', ' '] ++ value.chars := by
    simp [entry]
  rw [hentry]
  constructor
  · simp [he, hvalue '\n' (by decide)]
  · rw [List.getLast?_append]
    cases hlast : value.chars.getLast? with
    | none => simp
    | some c =>
      rintro ⟨⟩
      exact hvalue '\r' (by decide) (List.mem_of_getLast? hlast)

theorem not_mem_of_mem_entriesOf {e : String} (he : e ∈ entriesOf content) : '\n' ∉ e.toList := by
  rw [entriesOf, List.mem_map] at he
  obtain ⟨l, hl, rfl⟩ := he
  rw [String.toList_ofList]
  exact not_mem_of_mem_lines hl

/-! ### Through the file -/

theorem load_of_read (hr : t.read p = .ok content) :
    load t p = ⟨⟨entriesOf content, p⟩, none⟩ := by
  rw [load, hr]

/-- What is loaded behind a save is read from what was saved. -/
theorem load_save (hs : h.save t = ⟨t', none⟩) :
    load t' h.path = ⟨⟨entriesOf (fileBytes h.entries), h.path⟩, none⟩ :=
  load_of_read (read_write (save_eq_none_iff.1 hs).2)

/-- Entries that come back from their bytes are loaded as they were saved. -/
theorem load_save_of_unbroken (hs : h.save t = ⟨t', none⟩) (hp : h.path = p)
    (hentries : ∀ e ∈ h.entries, '\n' ∉ e.toList ∧ e.toList.getLast? ≠ some '\r') :
    load t' p = ⟨h, none⟩ := by
  rw [← hp, load_save hs, entriesOf_fileBytes_eq_self_iff.2 hentries]

/-- **Saved entries are loaded unchanged** exactly when none contains a line feed or ends in a
carriage return. -/
theorem entries_load_save_iff (hs : h.save t = ⟨t', none⟩) :
    (load t' h.path).history.entries = h.entries ↔
      ∀ e ∈ h.entries, '\n' ∉ e.toList ∧ e.toList.getLast? ≠ some '\r' := by
  rw [load_save hs, entriesOf_fileBytes_eq_self_iff]

/-- An empty entry comes back, but not a carriage return at the end of one. -/
theorem entries_load_save_carriage_return :
    let h : History := ⟨["", "1+1 = 2", "2+2 = 4\r"], ⟨"d/h.log"⟩⟩
    let t := Tree.empty []
    h.save t = ⟨(h.save t).tree, none⟩ ∧
      (load (h.save t).tree h.path).history.entries ≠ h.entries := by
  intro h t
  have hs : h.save t = ⟨(h.save t).tree, none⟩ := by decide +kernel
  refine ⟨hs, fun hsame => ?_⟩
  have hline := (entries_load_save_iff hs).1 hsame "2+2 = 4\r" (by decide +kernel)
  exact hline.2 (by decide +kernel)

/-! ### Through the entries -/

/-- A loaded entry ends in a carriage return if two of them stood before the line feed, or one at
the end of the file. -/
theorem exists_mem_entriesOf_iff :
    (∃ e ∈ entriesOf content, e.toList.getLast? = some '\r') ↔
      ['\r', '\r', '\n'] <:+: Utf8.decodeLossy content ∨
        (Utf8.decodeLossy content).getLast? = some '\r' := by
  rw [← exists_mem_lines_iff, entriesOf]
  simp only [List.mem_map, exists_exists_and_eq_and, String.toList_ofList]

/-- **A file that is loaded, saved and loaded again.** The history is always saved, and the entries
come back without the carriage returns at their ends. They are the same exactly when the text of the
file has no two carriage returns before a line feed and none at its end, whatever else its bytes
are. -/
theorem entries_load_save_load (hr : t.read p = .ok content) :
    ∃ t', (load t p).history.save t = ⟨t', none⟩ ∧
      load t p = ⟨⟨entriesOf content, p⟩, none⟩ ∧
      load t' p = ⟨⟨(entriesOf content).map fun e => String.ofList (dropFinalCr e.toList), p⟩,
        none⟩ ∧
      ((load t' p).history.entries = (load t p).history.entries ↔
        ¬ ['\r', '\r', '\n'] <:+: Utf8.decodeLossy content ∧
          (Utf8.decodeLossy content).getLast? ≠ some '\r') := by
  have hload := load_of_read hr
  rw [hload]
  obtain ⟨t', hs⟩ := exists_save_of_read (h := ⟨entriesOf content, p⟩) hr
  have hn : ∀ e ∈ entriesOf content, '\n' ∉ e.toList := fun e => not_mem_of_mem_entriesOf
  have hreload := load_save hs
  refine ⟨t', hs, rfl, ?_, ?_⟩
  · rw [hreload, entriesOf_fileBytes_of_not_mem hn]
  · rw [hreload, entriesOf_fileBytes_eq_self_iff, ← not_or, ← exists_mem_entriesOf_iff]
    simp only [not_exists, not_and]
    exact ⟨fun hsame e he => (hsame e he).2, fun hcr e he => ⟨hn e he, hcr e he⟩⟩

/-- Bytes that are no text and line endings of both kinds come through a second round. -/
theorem entries_load_save_load_broken_text :
    let content := [0x31, 0xFF, 0x0D, 0x0A, 0x32, 0x0A, 0x0D, 0x0A, 0xE2, 0x82]
    let t := (Tree.empty []).put ["h.log".toList] (.file content)
    t.read ⟨"h.log"⟩ = .ok content ∧
      ∃ t', (load t ⟨"h.log"⟩).history.save t = ⟨t', none⟩ ∧
        (load t' ⟨"h.log"⟩).history.entries = (load t ⟨"h.log"⟩).history.entries := by
  intro content t
  have hr : t.read ⟨"h.log"⟩ = .ok content := by decide +kernel
  obtain ⟨t', hs, -, -, hsame⟩ := entries_load_save_load hr
  exact ⟨hr, t', hs, hsame.2 (by decide +kernel)⟩

/-- Of two carriage returns before a line feed the first round keeps one and the second none. -/
theorem entries_load_save_load_ne :
    let t := (Tree.empty []).put ["h.log".toList] (.file (Utf8.bytesOf "1+1 = 2\r\r\n"))
    let h := (load t ⟨"h.log"⟩).history
    h.entries = ["1+1 = 2\r"] ∧ (h.save t).error = none ∧
      (load (h.save t).tree ⟨"h.log"⟩).history.entries = ["1+1 = 2"] := by
  decide +kernel

end Reckoner.History
