import Mathlib.Data.List.Forall2
import Reckoner.Proofs.History.RoundTrip
import Reckoner.Proofs.Text.Decoding

/-!
# Loading a damaged file

A file is decoded as a whole and then cut into lines. Bytes that are not text can reach neither over
a line feed nor over the carriage return before one, so the entries are what each line gives that is
cut out of the bytes first (`entries_load_damaged`): damage stays in its line.
-/

namespace Reckoner.History

open Files Text

variable {t : Tree} {p : Path} {content : List UInt8}

theorem entriesOf_eq (content : List UInt8) : entriesOf content =
    (segments 0x0A content).map fun s => String.ofList (Utf8.decodeLossy (Utf8.lineOf s)) := by
  rw [entriesOf, Utf8.lines_decodeLossy, List.map_map]
  rfl

/-- **Damage stays in its line.** The entries are one for each segment of the bytes, in their order:
the text of the segment, without the carriage return of the line ending, with U+FFFD for each broken
run. A line that is text is read as that text. -/
theorem entries_load_damaged (hr : t.read p = .ok content) :
    List.Forall₂
      (fun s e => Utf8.IsLossy (Utf8.lineOf s) e.toList ∧
        ∀ cs, Utf8.lineOf s = Utf8.encode cs → e = String.ofList cs)
      (segments 0x0A content) (load t p).history.entries := by
  rw [load_of_read hr, entriesOf_eq, List.forall₂_map_right_iff, List.forall₂_same]
  intro s _
  constructor
  · rw [String.toList_ofList]
    exact Utf8.isLossy_decodeLossy _
  · intro cs hcs
    rw [hcs, Utf8.decodeLossy_encode]

/-- A character without its last byte loses neither the line feed behind it nor the next line. -/
theorem entries_load_damaged_truncated :
    let content := [0x61, 0xE2, 0x82, 0x0A, 0x31, 0x0D, 0x0A, 0xFF, 0x0D]
    let t := (Tree.empty []).put ["h.log".toList] (.file content)
    t.read ⟨"h.log"⟩ = .ok content ∧ ∃ first last,
      (load t ⟨"h.log"⟩).history.entries = [first, "1", last] ∧
        Utf8.IsLossy [0x61, 0xE2, 0x82] first.toList ∧ Utf8.IsLossy [0xFF, 0x0D] last.toList := by
  intro content t
  have hr : t.read ⟨"h.log"⟩ = .ok content := by decide +kernel
  have hsegments : segments 0x0A content =
      [⟨[0x61, 0xE2, 0x82], true⟩, ⟨[0x31, 0x0D], true⟩, ⟨[0xFF, 0x0D], false⟩] := by decide
  have hentries := entries_load_damaged hr
  rw [hsegments] at hentries
  obtain ⟨first, _, ⟨hfirst, -⟩, htwo, heq⟩ := List.forall₂_cons_left_iff.1 hentries
  obtain ⟨second, _, ⟨-, hsecond⟩, hone, rfl⟩ := List.forall₂_cons_left_iff.1 htwo
  obtain ⟨last, _, ⟨hlast, -⟩, hnil, rfl⟩ := List.forall₂_cons_left_iff.1 hone
  obtain rfl := List.forall₂_nil_left_iff.1 hnil
  obtain rfl : second = "1" := hsecond ['1'] (by decide)
  exact ⟨hr, first, last, heq, hfirst, hlast⟩

end Reckoner.History
