import Reckoner.Console.Plain
import Reckoner.Proofs.Session.Dialogue
import Reckoner.Proofs.Text.Utf8

/-!
# Lines through the plain console

The plain console delivers the lines that its bytes spell, if its output has no limit: no byte of
a line is the line feed, so each line is cut off where it ends, and the line endings that are
dropped from it are blanks.
-/

namespace Reckoner.Plain

open Text

/-! ### Cutting off a line -/

theorem takeLine_line {bs : List UInt8} (h : lineFeed ∉ bs) (rest : List UInt8) :
    takeLine (bs ++ [lineFeed] ++ rest) = (bs ++ [lineFeed], rest) := by
  induction bs with
  | nil => rfl
  | cons b bs ih =>
    rw [List.mem_cons, not_or] at h
    rw [List.cons_append, List.cons_append, takeLine, if_neg (Ne.symm h.1), ih h.2]

theorem lineBytes_eq (line : String) : lineBytes line = Utf8.encode (line.toList ++ ['\n']) := by
  rw [lineBytes, Utf8.bytesOf, Utf8.encode_append]
  rfl

theorem isLineEnd_iff {c : Char} : isLineEnd c = true ↔ c = '\r' ∨ c = '\n' := by
  rw [isLineEnd, Bool.or_eq_true, beq_iff_eq, beq_iff_eq]

theorem allBlank_of_isLineEnd {cs : List Char} (h : ∀ c ∈ cs, isLineEnd c = true) :
    AllBlank cs := by
  intro c hc
  rcases isLineEnd_iff.1 (h c hc) with rfl | rfl <;> decide

/-- An input line is its text and the line ends behind it. -/
theorem exists_lineText_eq (cs : List Char) : ∃ text ends, cs = text ++ ends ∧
    lineText cs = String.ofList text ∧ (∀ c ∈ ends, isLineEnd c = true) ∧
      ∀ c ∈ text.getLast?, ¬ isLineEnd c = true := by
  refine ⟨cs.rdropWhile isLineEnd, cs.rtakeWhile isLineEnd,
    List.rdropWhile_append_rtakeWhile.symm, rfl, fun c hc => List.mem_rtakeWhile_imp hc, ?_⟩
  intro c hc
  obtain ⟨hne, rfl⟩ := List.mem_getLast?_eq_getLast hc
  exact List.rdropWhile_last_not _ _ hne

/-- What is dropped at the end of a line is blank. -/
theorem trim_lineText (cs : List Char) : trim (lineText cs).toList = trim cs := by
  obtain ⟨text, ends, rfl, htext, hends, -⟩ := exists_lineText_eq cs
  rw [htext, String.toList_ofList, trim_append_blank _ (allBlank_of_isLineEnd hends)]

/-! ### Delivery -/

/-- The input spells the lines, none of which has a line feed, and the output takes everything. -/
structure Spells (lines : List String) (k : State) : Prop where
  /-- The input is the lines. -/
  input : k.input = lines.flatMap lineBytes
  /-- A line reaches to its line feed. -/
  not_mem : ∀ line ∈ lines, '\n' ∉ line.toList
  /-- There is no limit. -/
  room : k.output.room = none

theorem accepts_of_room {s : Sink} (h : s.room = none) (bs : List UInt8) :
    s.accepts bs = true := by
  rw [Sink.accepts, Sink.fitting, h]
  exact decide_eq_true rfl

theorem room_write {s : Sink} (h : s.room = none) (bs : List UInt8) :
    (s.write bs).room = none := by
  rw [Sink.write, h]
  rfl

theorem ask_of_input_nil {k : State} {prompt : String}
    (h : k.output.accepts (lineBytes prompt) = true) (hinput : k.input = []) :
    console.ask prompt k = .closed ⟨[], k.output.write (lineBytes prompt)⟩ := by
  simp only [console, ask]
  rw [if_pos h, hinput, takeLine, if_pos rfl]

theorem delivers : console.Delivers Spells where
  display hk message := ⟨hk.input, hk.not_mem, room_write hk.room _⟩
  ask_nil := by
    intro k hk prompt
    exact ⟨_, ask_of_input_nil (accepts_of_room hk.room _) hk.input⟩
  ask_cons := by
    intro line lines k hk prompt
    have hnew : '\n' ∉ line.toList := hk.not_mem line List.mem_cons_self
    have hcut : takeLine k.input = (lineBytes line, lines.flatMap lineBytes) := by
      rw [hk.input, List.flatMap_cons, lineBytes, Utf8.bytesOf]
      exact takeLine_line (Utf8.not_mem_encode rfl hnew) _
    have hne : lineBytes line ≠ [] := by
      rw [lineBytes]
      simp
    have htext : Utf8.decode? (lineBytes line) = some (line.toList ++ ['\n']) := by
      rw [lineBytes_eq, Utf8.decode?_encode]
    -- the line is read with its line feed, which is dropped from the text
    refine ⟨lineText (line.toList ++ ['\n']),
      ⟨lines.flatMap lineBytes, k.output.write (lineBytes prompt)⟩, ?_, ?_, ?_⟩
    · simp only [console, ask]
      rw [if_pos (accepts_of_room hk.room _), hcut, if_neg hne, htext]
    · rw [trim_lineText]
      exact trim_append_blank _ (allBlank_of_isLineEnd (by simp [isLineEnd]))
    · exact ⟨rfl, fun l hl => hk.not_mem l (List.mem_cons_of_mem _ hl), room_write hk.room _⟩

end Reckoner.Plain
