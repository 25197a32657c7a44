import Mathlib.Data.List.Basic
import Reckoner.Proofs.Session.Entries
import Reckoner.Proofs.Session.Lines
import Reckoner.Proofs.Text.Positions

/-!
# Asking for the calculations

A line asks for the calculations if it begins with the word `details` in either case and a space,
and goes on after them. The word is eight characters long and takes eight bytes, and it is looked
for in the bytes of the line: before the eighth byte, if that place is between characters, and what
stands behind the place is the expression. So the line is only ever cut between characters, and the
command is the one that the characters tell (`Command.ofBytes?_eq`).

The expression of a command has no blanks around it. With the word in front of it, a line asks for
the same expression (`Command.ofLine_details`) and is answered in the same way, but for the
calculations.
-/

namespace Reckoner

open Files Text

/-! ### Texts and their bytes -/

namespace Text.Utf8

variable {cs : List Char} {b n : Nat}

/-- The text behind a place that is told in bytes. -/
def sliceFrom? (cs : List Char) (b : Nat) : Option (List Char) :=
  (charsBefore? cs b).map fun n => cs.drop n

theorem sliceFrom?_offset (cs : List Char) (n : Nat) :
    sliceFrom? cs (offset cs n) = some (cs.drop n) := by
  rw [sliceFrom?, charsBefore?_offset, Option.map_some]
  rcases Nat.le_total n cs.length with h | h
  · rw [Nat.min_eq_left h]
  · rw [Nat.min_eq_right h, List.drop_length, List.drop_of_length_le h]

/-- Characters that are written with one byte. -/
theorem length_encode_of_le (h : ∀ c ∈ cs, c.val ≤ 127) : (encode cs).length = cs.length := by
  induction cs with
  | nil => rfl
  | cons c cs ih =>
    rw [List.forall_mem_cons] at h
    rw [length_encode_cons, Char.utf8Size_eq_one_iff.2 h.1, ih h.2, List.length_cons, Nat.add_comm]

end Text.Utf8

namespace Command

open Text.Utf8 (charsBefore? sliceTo? sliceFrom? encode offset)

/-! ### The word in the bytes of a line -/

/-- What stands behind the word that asks for the calculations, if the line begins with it and goes
on after it. Cutting a line within a character would be the end of the program. -/
def behindWord? (cs : List Char) : Option (Option (List Char)) :=
  let place := (encode detailsWord).length
  if place < (encode cs).length ∧ (charsBefore? cs place).isSome then
    (sliceTo? cs place).bind fun word =>
      if lowerAscii word = detailsWord then (sliceFrom? cs place).map some else some none
  else some none

/-- The command for a line without blanks around it, the word being looked for in its bytes. -/
def ofBytes? (cs : List Char) : Option Command :=
  match lowerAscii cs with
  | ['q'] => some .quit
  | ['h'] => some .showHistory
  | ['s'] => some .save
  | ['c'] => some .changePath
  | _ => (behindWord? cs).map fun
    | some rest => .evaluate (String.ofList (trim rest)) true
    | none => .evaluate (String.ofList cs) false

variable {cs w rest : List Char} {line e : String}

theorem length_encode_detailsWord : (encode detailsWord).length = 8 := by decide

theorem val_le_of_isAlpha {c : Char} (h : c.isAlpha = true) : c.val ≤ 127 := by
  have hn := toNat_of_isAlpha h
  rw [UInt32.le_iff_toNat_le, Char.toNat_val]
  show c.toNat ≤ 127
  omega

theorem IsDetails.lowerAscii_append (hw : IsDetails w) : lowerAscii (w ++ [' ']) = detailsWord := by
  have hlower : w.map Char.toLower = "details".toList := hw
  rw [lowerAscii, List.map_append, hlower]
  decide

theorem isPrefixOf_of_take {n : Nat} (h : lowerAscii (cs.take n) = detailsWord) :
    detailsWord.isPrefixOf (lowerAscii cs) = true := by
  rw [List.isPrefixOf_iff_prefix, ← h]
  exact (List.take_prefix n cs).map Char.toLower

theorem take_details (hw : IsDetails w) (rest : List Char) :
    (w ++ ' ' :: rest).take 8 = w ++ [' '] := by
  rw [List.append_cons, List.take_left' (by rw [List.length_append, hw.length_eq]; rfl)]

/-- The word takes as many bytes as it has characters. -/
theorem offset_details (hw : IsDetails w) (rest : List Char) : offset (w ++ ' ' :: rest) 8 = 8 := by
  have hone : ∀ c ∈ w ++ [' '], c.val ≤ 127 := by
    rw [List.forall_mem_append, List.forall_mem_singleton]
    exact ⟨fun c hc => val_le_of_isAlpha (hw.isAlpha_of_mem hc), by decide⟩
  rw [offset, take_details hw, Utf8.length_encode_of_le hone, List.length_append, hw.length_eq]
  rfl

/-- The word is found in the bytes of a line exactly if it is found in its characters. -/
theorem behindWord?_eq (cs : List Char) : behindWord? cs = some
    (if detailsWord.isPrefixOf (lowerAscii cs) && detailsWord.length < cs.length then
      some (cs.drop detailsWord.length) else none) := by
  have hlength : detailsWord.length = 8 := by decide
  rw [behindWord?, length_encode_detailsWord, hlength]
  by_cases hword : detailsWord.isPrefixOf (lowerAscii cs) = true
  · obtain ⟨w, rest, hw, rfl⟩ := isPrefixOf_detailsWord.1 hword
    have hplace := offset_details hw rest
    have hbefore : (w ++ ' ' :: rest).take 8 = w ++ [' '] := take_details hw rest
    have hboundary : (charsBefore? (w ++ ' ' :: rest) 8).isSome = true := by
      rw [← hplace, Utf8.charsBefore?_offset, Option.isSome_some]
    have hlong : 8 < (encode (w ++ ' ' :: rest)).length ↔ 8 < (w ++ ' ' :: rest).length := by
      rw [← hplace, Utf8.offset_lt_iff, hplace]
    have hslice : sliceTo? (w ++ ' ' :: rest) 8 = some (w ++ [' ']) := by
      rw [← hplace, Utf8.sliceTo?_offset, hbefore]
    have hbehind : sliceFrom? (w ++ ' ' :: rest) 8 = some ((w ++ ' ' :: rest).drop 8) := by
      rw [← hplace, Utf8.sliceFrom?_offset, hplace]
    rw [hword, Bool.true_and, hslice, hbehind, Option.bind_some,
      if_pos hw.lowerAscii_append]
    simp only [hlong, hboundary, and_true, decide_eq_true_eq]
    split_ifs <;> rfl
  · rw [Bool.not_eq_true] at hword
    rw [hword, Bool.false_and, if_neg Bool.false_ne_true]
    split_ifs with hcut
    · obtain ⟨n, hn⟩ := Option.isSome_iff_exists.1 hcut.2
      have hother : lowerAscii (cs.take n) ≠ detailsWord := by
        intro hlower
        rw [isPrefixOf_of_take hlower] at hword
        cases hword
      rw [sliceTo?, hn, Option.map_some, Option.bind_some, if_neg hother]
    · rfl

/-- The command is the same, and no line is cut within a character. -/
theorem ofBytes?_eq (cs : List Char) : ofBytes? cs = some (ofTrimmed cs) := by
  rw [ofBytes?]
  split
  · next h =>
    rw [ofTrimmed, h]
    rfl
  · next h =>
    rw [ofTrimmed, h]
    rfl
  · next h =>
    rw [ofTrimmed, h]
    rfl
  · next h =>
    rw [ofTrimmed, h]
    rfl
  · next hq hh hs hc =>
    rw [ofTrimmed_of_ne hq hh hs hc, behindWord?_eq]
    split_ifs <;> rfl

/-! ### The word in front of a line -/

/-- With the word in front of it, a line asks for the same expression and for the calculations. -/
theorem ofLine_details (h : ofLine line = .evaluate e false) (he : e ≠ "") :
    ofLine ("details " ++ line) = .evaluate e true := by
  obtain ⟨as, bs, has, hbs, hline⟩ := exists_eq_append_trim line.toList
  have hexpression : e = String.ofList (trim line.toList) := by
    rcases ofTrimmed_eq_evaluate h with ⟨_, _, _, _, _, _, hfalse⟩ | ⟨he, -⟩
    · cases hfalse
    · exact he
  have hne : trim line.toList ≠ [] := by
    intro hnil
    rw [hnil] at hexpression
    exact he hexpression
  have hrest : trim (as ++ trim line.toList) = trim line.toList := by
    rw [trim_blank_append has, trim_trim]
  have hword : trim ("details ".toList ++ line.toList) =
      "details".toList ++ ' ' :: (as ++ trim line.toList) := by
    calc trim ("details ".toList ++ line.toList)
        = trim (("details".toList ++ ' ' :: (as ++ trim line.toList)) ++ bs) := by
          rw [List.append_assoc, List.cons_append, List.append_assoc, ← hline]
          rfl
      _ = trim ("details".toList ++ ' ' :: (as ++ trim line.toList)) := trim_append_blank _ hbs
      _ = _ := trim_of_not_blank (fun c hc => ?_) fun c hc => ?_
    · cases hc
      decide
    · -- the line ends as it does without the word
      rw [← List.cons_append, ← List.append_assoc,
        List.getLast?_append_of_ne_nil _ hne] at hc
      exact isBlank_of_getLast?_trim hc
  rw [ofLine, String.toList_append, hword,
    ofTrimmed_details (w := "details".toList) rfl (List.append_ne_nil_of_right_ne_nil _ hne),
    hrest, hexpression]

/-- The expression of a command is not empty if the calculations are asked for. -/
theorem expression_ne_empty (h : ofLine line = .evaluate e true) : e ≠ "" := by
  rcases ofTrimmed_eq_evaluate h with ⟨w, rest, hw, hrest, hline, rfl, -⟩ | ⟨-, hfalse⟩
  · intro hempty
    have hblank : AllBlank rest := trim_eq_nil_iff.1 (String.ofList_eq_empty_iff.1 hempty)
    -- the line has no blank at its end, and it ends in what stands behind the word
    have hlast : (trim line.toList).getLast? = some (rest.getLast hrest) := by
      rw [hline, List.append_cons, List.getLast?_append_of_ne_nil _ hrest,
        List.getLast?_eq_some_getLast hrest]
    have hnot := isBlank_of_getLast?_trim hlast
    rw [hblank _ (List.getLast_mem hrest)] at hnot
    cases hnot
  · cases hfalse

/-- The calculations are asked for exactly by the word, a space and something more. -/
theorem exists_ofLine_eq_iff : (∃ e, ofLine line = .evaluate e true) ↔
    lowerAscii ((trim line.toList).take 8) = "details ".toList ∧ 8 < (trim line.toList).length := by
  constructor
  · rintro ⟨e, h⟩
    rcases ofTrimmed_eq_evaluate h with ⟨w, rest, hw, hrest, hline, -, -⟩ | ⟨-, hfalse⟩
    · have hpos : 0 < rest.length := List.length_pos_iff.2 hrest
      rw [hline, take_details hw, List.length_append, List.length_cons, hw.length_eq]
      exact ⟨hw.lowerAscii_append, by omega⟩
    · cases hfalse
  · rintro ⟨hword, hlength⟩
    have hlong : detailsWord.length < (trim line.toList).length := hlength
    refine ⟨String.ofList (trim ((trim line.toList).drop detailsWord.length)), ?_⟩
    rw [ofLine, ofTrimmed_of_length (by omega), isPrefixOf_of_take hword, Bool.true_and,
      if_pos (decide_eq_true hlong)]

end Command

namespace Session

theorem ready_of {s : Session} (hfinished : s.isFinished = false)
    (hawaiting : s.isAwaitingPath = false) : s.phase = .ready := by
  cases hphase : s.phase with
  | ready => rfl
  | awaitingPath =>
    rw [isAwaitingPath_iff.2 hphase] at hawaiting
    cases hawaiting
  | finished => exact absurd hphase (isFinished_eq_false_iff.1 hfinished)

/-- **Asking for the calculations.** Blanks around a line do not count. The expression of a line has
none around it, and it is not empty if the calculations are asked for. They are asked for exactly if
the line without blanks around it begins with the eight characters of the word and its space, in
either case, and goes on after them; looking for the word in the bytes of the line comes to the same
and never cuts a character. With the word in front of it, a line that asks for an expression leads
to the same session and is answered in the same way, but for the calculations that are listed. -/
theorem submit_details (line : String) :
    (∀ a b : String, AllBlank a.toList → AllBlank b.toList →
      Command.ofLine (a ++ line ++ b) = Command.ofLine line) ∧
    (∀ e detailed, Command.ofLine line = .evaluate e detailed →
      (∀ c ∈ e.toList.head?, isBlank c = false) ∧ (∀ c ∈ e.toList.getLast?, isBlank c = false) ∧
        (detailed = true → e ≠ "")) ∧
    ((∃ e, Command.ofLine line = .evaluate e true) ↔
      lowerAscii ((trim line.toList).take 8) = "details ".toList ∧
        8 < (trim line.toList).length) ∧
    Command.ofBytes? (trim line.toList) = some (Command.ofLine line) ∧
    ∀ e, Command.ofLine line = .evaluate e false → e ≠ "" →
      ∀ (s : Session) (t : Tree), s.isFinished = false → s.isAwaitingPath = false →
        let plain := s.submit t line
        let detailed := s.submit t ("details " ++ line)
        detailed.session = plain.session ∧ detailed.tree = plain.tree ∧
          ((∃ x, plain.replies = [.value e x []] ∧
              detailed.replies = [.value e x (Expression.work true e).steps]) ∨
            ∃ f, plain.replies = [.failed e f] ∧ detailed.replies = [.failed e f]) := by
  refine ⟨?_, ?_, Command.exists_ofLine_eq_iff, Command.ofBytes?_eq _, ?_⟩
  · intro a b ha hb
    refine Command.ofLine_congr ?_
    rw [String.toList_append, String.toList_append, trim_append_blank _ hb, trim_blank_append ha]
  · intro e detailed h
    have htrim := Command.trim_expression h
    refine ⟨fun c hc => ?_, fun c hc => ?_, ?_⟩
    · obtain ⟨cs, hcs⟩ := List.head?_eq_some_iff.1 hc
      exact isBlank_of_trim_eq (htrim.trans hcs)
    · exact isBlank_of_getLast?_trim (htrim.symm ▸ hc)
    · rintro rfl
      exact Command.expression_ne_empty h
  · intro e h he s t hfinished hawaiting
    have hready := ready_of hfinished hawaiting
    dsimp only
    rw [submit_of_ready hready, submit_of_ready hready, h, Command.ofLine_details h he, execute,
      execute, evaluate_eq, evaluate_eq]
    cases Expression.evaluate e with
    | ok x => exact ⟨rfl, rfl, Or.inl ⟨x, rfl, rfl⟩⟩
    | error f => exact ⟨rfl, rfl, Or.inr ⟨f, rfl, rfl⟩⟩

/-- A line with blanks around it, and with the word in front of them. -/
theorem submit_details_blanks :
    let s := new (.new ⟨"h.log"⟩) ⟨"/d"⟩
    let plain := s.submit (.empty []) "\u3000 2*3\t"
    let detailed := s.submit (.empty []) "details \u3000 2*3\t"
    Command.ofLine "\u3000 2*3\t" = Command.ofLine "2*3" ∧
      Command.ofLine "2*3" = .evaluate "2*3" false ∧
      detailed.session = plain.session ∧ detailed.replies ≠ plain.replies ∧
      plain.session.history.entries = ["2*3 = 6"] := by
  intro s plain detailed
  have hline : Command.ofLine "2*3" = .evaluate "2*3" false := by decide
  have hbefore : "\u3000 ".toList.all isBlank = true := by decide
  have hbehind : "\t".toList.all isBlank = true := by decide
  have hblank := (submit_details "2*3").1 "\u3000 " "\t" (List.all_eq_true.1 hbefore)
    (List.all_eq_true.1 hbehind)
  have hasks : Command.ofLine "\u3000 2*3\t" = .evaluate "2*3" false := hblank.trans hline
  obtain ⟨-, -, -, -, h⟩ := submit_details "\u3000 2*3\t"
  obtain ⟨hsession, -, -⟩ := h "2*3" hasks (by decide) s (.empty []) rfl rfl
  exact ⟨hblank, hline, hsession, by decide +kernel, by decide +kernel⟩

end Session

end Reckoner
