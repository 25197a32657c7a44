import Mathlib.Data.List.Basic
import Reckoner.Console.LineEditor
import Reckoner.Proofs.Session.Dialogue

/-!
# Lines typed into the line editor

The line editor delivers the lines that are typed into it, if its terminal does not fail: a
character typed behind a line is added to it, and the enter key hands the line over.
-/

namespace Reckoner.LineEditor

open Text

/-- The strokes that type a line and enter it. -/
def typedLine (line : String) : List Stroke :=
  line.toList.map (fun c => .key (.char c)) ++ [.key (.char '\n')]

/-- The strokes that type lines. -/
def typedLines (lines : List String) : List Stroke := lines.flatMap typedLine

/-! ### Writing -/

theorem write?_of_broken {screen : Screen} (h : screen.broken = []) (cs : List Char) :
    screen.write? cs = some { screen with current := screen.current ++ cs } := by
  rw [Screen.write?, h]
  rfl

theorem broken_write {screen : Screen} (h : screen.broken = []) (cs : List Char) :
    (screen.write cs).broken = [] := by
  rw [Screen.write, write?_of_broken h, Option.getD_some, h]

/-! ### Typing -/

/-- A character typed behind the line is added to it. -/
theorem insert_of_cursor {e : Edit} (h : e.cursor = e.line.length) (c : Char) :
    e.insert c = { e with line := e.line ++ [c], cursor := e.cursor + 1 } := by
  rw [Edit.insert, h, List.take_length, List.drop_length]

/-- The enter key hands over what was typed behind the line. -/
theorem edit_typed (k : State) {screen : Screen} (hscreen : screen.broken = []) {e : Edit}
    {cs : List Char} (hcursor : e.cursor = e.line.length) (hcs : '\n' ∉ cs)
    (strokes : List Stroke) :
    ∃ k', edit k screen e (cs.map (fun c => .key (.char c)) ++ .key (.char '\n') :: strokes) =
        .line (String.ofList (e.line ++ cs)) k' ∧
      k'.strokes = strokes ∧ k'.screen.broken = [] := by
  induction cs generalizing screen e with
  | nil =>
    rw [List.map_nil, List.nil_append, List.append_nil, edit, write?_of_broken hscreen]
    simp only [Edit.press, if_true, entered]
    rw [write?_of_broken (by exact hscreen)]
    exact ⟨_, rfl, rfl, hscreen⟩
  | cons c cs ih =>
    rw [List.mem_cons, not_or] at hcs
    have hcursor' : (e.insert c).cursor = (e.insert c).line.length := by
      rw [insert_of_cursor hcursor, List.length_append, hcursor]
      rfl
    rw [List.map_cons, List.cons_append, edit, write?_of_broken hscreen]
    simp only [Edit.press, if_neg (Ne.symm hcs.1)]
    -- the line is drawn, and editing goes on behind one more character
    have hdrawn :
        (Screen.cut { screen with current := screen.current ++ drawing k.row e }).broken = [] :=
      hscreen
    obtain ⟨k', hk', hstrokes, hbroken⟩ := ih hdrawn hcursor' hcs.2
    refine ⟨k', ?_, hstrokes, hbroken⟩
    rw [hk', insert_of_cursor hcursor, List.append_assoc]
    rfl

/-- Without a key there is no line. -/
theorem edit_nil (k : State) {screen : Screen} (hscreen : screen.broken = []) (e : Edit) :
    ∃ k', edit k screen e [] = .closed k' := by
  rw [edit, write?_of_broken hscreen]
  exact ⟨_, rfl⟩

/-! ### Delivery -/

/-- The strokes to come type the lines, none of which has a line feed, and the terminal works. -/
structure Types (lines : List String) (k : State) : Prop where
  /-- The strokes are the lines. -/
  strokes : k.strokes = typedLines lines
  /-- The line feed stands for the enter key. -/
  not_mem : ∀ line ∈ lines, '\n' ∉ line.toList
  /-- No part of the terminal fails. -/
  broken : k.screen.broken = []

theorem ask_eq {k : State} (h : k.screen.broken = []) (prompt : String) :
    ask prompt k =
      edit k { k.screen with current := k.screen.current ++ (prompt.toList ++ newLine) }
        (.start k.earlier.length) k.strokes := by
  rw [ask, write?_of_broken h]
  simp only [h]
  rfl

theorem delivers : console.Delivers Types where
  display hk message := ⟨hk.strokes, hk.not_mem, broken_write hk.broken _⟩
  ask_nil := by
    intro k hk prompt
    have hstrokes : k.strokes = [] := hk.strokes
    simp only [console]
    rw [ask_eq hk.broken, hstrokes]
    exact edit_nil k (by exact hk.broken) _
  ask_cons := by
    intro line lines k hk prompt
    have hnew : '\n' ∉ line.toList := hk.not_mem line List.mem_cons_self
    have hstrokes : k.strokes = line.toList.map (fun c => .key (.char c)) ++
        .key (.char '\n') :: typedLines lines := by
      rw [hk.strokes, typedLines, List.flatMap_cons, typedLine, List.append_assoc]
      rfl
    have hscreen : ({ k.screen with
        current := k.screen.current ++ (prompt.toList ++ newLine) } : Screen).broken = [] :=
      hk.broken
    obtain ⟨k', hedit, hk', hbroken⟩ :=
      edit_typed k hscreen (e := .start k.earlier.length) rfl hnew (typedLines lines)
    refine ⟨line, k', ?_, rfl, hk', fun l hl => hk.not_mem l (List.mem_cons_of_mem _ hl), hbroken⟩
    simp only [console]
    rw [ask_eq hk.broken, hstrokes, hedit]
    exact congrArg (Supply.line · k') (String.ofList_toList (s := line))

end Reckoner.LineEditor
