import Mathlib.Data.List.Forall2
import Reckoner.Proofs.Console.Plain
import Reckoner.Proofs.Session.Answers
import Reckoner.Proofs.Text.Decoding

/-!
# Reading from the plain console

The input of the plain console is cut into segments behind its line feeds, and each read takes one:
the text without the line ends behind it, or the failure that the bytes are not text. The end of the
input is told when no byte is left, so a blank line, which is at least a line feed, is not taken for
it. The console answers in this way as long as its output has room (`Plain.answers`), whatever is
shown in between, so a dialogue submits the lines before the first segment that is not text and
stops there (`Plain.run_segments`).
-/

namespace Reckoner.Plain

open Files Text

variable {bs : List UInt8}

/-! ### What bytes give -/

/-- What reading the bytes of a segment gives. -/
inductive Gives (bs : List UInt8) : Except Breakdown String → Prop
  /-- The text without any carriage returns and line feeds at its end. -/
  | line (cs ends : List Char) (hbytes : bs = Utf8.encode (cs ++ ends))
    (hends : ∀ c ∈ ends, c = '\r' ∨ c = '\n')
    (hlast : ∀ c ∈ cs.getLast?, ¬ (c = '\r' ∨ c = '\n')) : Gives bs (.ok (String.ofList cs))
  /-- The failure, if they are not the bytes of a text. -/
  | broken (hbytes : ∀ cs, bs ≠ Utf8.encode cs) : Gives bs (.error notText)

/-- The answer that the bytes of an input line make. -/
def answer (bs : List UInt8) : Except Breakdown String :=
  match Utf8.decode? bs with
  | none => .error notText
  | some cs => .ok (lineText cs)

theorem gives_answer (bs : List UInt8) : Gives bs (answer bs) := by
  rw [answer]
  cases h : Utf8.decode? bs with
  | none =>
    refine .broken fun cs hcs => ?_
    rw [hcs, Utf8.decode?_encode] at h
    cases h
  | some cs =>
    obtain ⟨text, ends, rfl, htext, hends, hlast⟩ := exists_lineText_eq cs
    simp only [isLineEnd_iff] at hends hlast
    dsimp only
    rw [htext]
    exact .line text ends (Utf8.decode?_eq_some_iff.1 h) hends hlast

theorem lineText_concat (cs : List Char) : lineText (cs ++ ['\n']) = lineText cs :=
  congrArg String.ofList (List.rdropWhile_concat_pos isLineEnd cs '\n' rfl)

/-- The line feed that is read with a line does not count. -/
theorem answer_concat (bs : List UInt8) : answer (bs ++ [lineFeed]) = answer bs := by
  have hlf : String.utf8EncodeChar '\n' = [lineFeed] := by decide
  rw [answer, answer, Utf8.decode?_concat hlf]
  cases Utf8.decode? bs with
  | none => rfl
  | some cs => exact congrArg Except.ok (lineText_concat cs)

/-! ### Reads -/

theorem takeLine_of_not_mem (h : lineFeed ∉ bs) : takeLine bs = (bs, []) := by
  induction bs with
  | nil => rfl
  | cons b bs ih =>
    rw [List.mem_cons, not_or] at h
    rw [takeLine, if_neg (Ne.symm h.1), ih h.2]

/-- A read takes the bytes of the first segment and leaves the others. -/
theorem takeLine_of_segments {s : Segment UInt8} {rest : List (Segment UInt8)}
    (h : segments lineFeed bs = s :: rest) : (takeLine bs).1 ≠ [] ∧
      answer (takeLine bs).1 = answer s.items ∧ segments lineFeed (takeLine bs).2 = rest := by
  induction bs using cut_induction lineFeed with
  | last xs hxs =>
    rw [segments_of_not_mem hxs] at h
    split_ifs at h with hne
    cases h
    rw [takeLine_of_not_mem hxs]
    exact ⟨hne, rfl, rfl⟩
  | ended xs ys hxs _ =>
    rw [segments_append hxs] at h
    cases h
    rw [List.append_cons, takeLine_line hxs]
    exact ⟨by simp, answer_concat xs, rfl⟩

/-- If the prompt can be written, a read gives the answer to the first segment. -/
theorem ask_of_segments {k : State} {prompt : String} {s : Segment UInt8}
    {rest : List (Segment UInt8)} (h : k.output.accepts (lineBytes prompt) = true)
    (hsegments : segments lineFeed k.input = s :: rest) : console.ask prompt k =
      .of ⟨(takeLine k.input).2, k.output.write (lineBytes prompt)⟩ (answer s.items) := by
  obtain ⟨hne, hanswer, -⟩ := takeLine_of_segments hsegments
  simp only [console, ask]
  rw [if_pos h, if_neg hne, ← hanswer, answer]
  cases Utf8.decode? (takeLine k.input).1 <;> rfl

/-- The input is made of segments that give these answers, and the output takes everything. -/
structure Holds (answers : List (Except Breakdown String)) (k : State) : Prop where
  /-- The answers are those to the segments. -/
  input : (segments lineFeed k.input).map (fun s => answer s.items) = answers
  /-- There is no limit. -/
  room : k.output.room = none

theorem answers : console.Answers Holds where
  display hk message := ⟨hk.input, room_write hk.room _⟩
  ask_nil := by
    intro k hk prompt
    have hinput : k.input = [] := segments_eq_nil_iff.1 (List.map_eq_nil_iff.1 hk.input)
    exact ⟨_, ask_of_input_nil (accepts_of_room hk.room _) hinput, rfl, room_write hk.room _⟩
  ask_cons := by
    intro first others k hk prompt
    obtain ⟨s, rest, hsegments, rfl, hrest⟩ := List.map_eq_cons_iff.1 hk.input
    obtain ⟨-, -, hleft⟩ := takeLine_of_segments hsegments
    refine ⟨_, ask_of_segments (accepts_of_room hk.room _) hsegments, ?_, room_write hk.room _⟩
    rw [hleft]
    exact hrest

/-! ### The whole input -/

/-- **The input is read line by line.** Each segment of the bytes gives one answer, in their order,
and behind the last the input has ended, not before. If there is no failure among the answers, a
dialogue feeds the lines to the session. Otherwise it submits the lines before the first failure,
and unless the session is finished then, it breaks down there. The session and the tree are as these
lines have left them. -/
theorem run_segments (input : List UInt8) (s : Session) (t : Tree) :
    let k := State.start input none
    let d := console.run s t k
    ∃ answers, List.Forall₂ (fun line => Gives line.items) (segments lineFeed input) answers ∧
      (∀ prompts, console.reads prompts k =
        (answers.map (Except.map some) ++ List.replicate prompts.length (Except.ok none)).take
          prompts.length) ∧
      ((∃ lines : List String, answers = lines.map .ok ∧
          (d.session, d.tree) = s.feed t lines ∧ d.breakdown = none) ∨
        ∃ (lines : List String) (why : Breakdown) (rest : List (Except Breakdown String)),
          answers = lines.map .ok ++ .error why :: rest ∧
          (d.session, d.tree) = s.afterCalls t (lines.map .submit) ∧
          d.breakdown = if d.session.isFinished then none else some why) := by
  intro k d
  have hk : Holds ((segments lineFeed input).map fun s => answer s.items) k := ⟨rfl, rfl⟩
  refine ⟨_, ?_, answers.reads hk, answers.run hk s t⟩
  rw [List.forall₂_map_right_iff, List.forall₂_same]
  exact fun s _ => gives_answer s.items

example : console.reads ["", "", "", "", "", ""]
    (.start [0x31, 0x0D, 0x0A, 0x0A, 0xFF, 0x0A, 0x32, 0x0D] none) =
      [.ok (some "1"), .ok (some ""), .error notText, .ok (some "2"), .ok none, .ok none] := by
  decide +kernel

end Reckoner.Plain
