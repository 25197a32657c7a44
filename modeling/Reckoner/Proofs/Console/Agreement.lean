import Reckoner.Proofs.Console.LineEditor
import Reckoner.Proofs.Console.Plain
import Reckoner.Proofs.Desk.Typing

/-!
# The three ways in

Lines reach a session as bytes, as strokes in the line editor or as keys at the desk. All three are
the same as feeding the lines to the session, so they come to the same session and the same tree
(`run_agree`), though what is said on the way differs: the desk does not submit blank lines that are
not paths.
-/

namespace Reckoner

open Files

/-- **The ways in agree.** Lines without line feeds, ended by line feeds in the input of the plain
console, typed into a line editor whose terminal works, or typed at a desk with an empty input that
is left at the end, come to the same finished session and the same tree: those after the lines were
fed to the session. -/
theorem run_agree (s : Session) (t : Tree) (lines : List String)
    (hlines : ∀ line ∈ lines, '\n' ∉ line.toList) (row elapsed : Nat) (d : Desk)
    (hsession : d.session = s) (htree : d.tree = t) (hhelp : d.helpShown = false)
    (hinput : d.input = []) :
    let plain := Plain.console.run s t (.start (lines.flatMap Plain.lineBytes) none)
    let edited := LineEditor.run s t (.start (LineEditor.typedLines lines) row [])
    let desk := d.pressAll elapsed (Desk.typedLines lines)
    (plain.session = (s.feed t lines).1 ∧ plain.tree = (s.feed t lines).2 ∧
        plain.session.isFinished = true ∧ plain.breakdown = none) ∧
      (edited.session = plain.session ∧ edited.tree = plain.tree ∧ edited.breakdown = none) ∧
      desk.session = plain.session ∧ desk.tree = plain.tree := by
  intro plain edited desk
  have hspells : Plain.Spells lines (.start (lines.flatMap Plain.lineBytes) none) :=
    ⟨rfl, hlines, rfl⟩
  have htypes : LineEditor.Types lines (.start (LineEditor.typedLines lines) row []) :=
    ⟨rfl, hlines, rfl⟩
  have hfollows : d.Follows s t := by
    refine ⟨hsession, htree, hhelp, ?_, ?_⟩
    · rw [hinput]
      exact Text.AllBlank.nil
    · rw [hinput]
      exact Nat.zero_le _
  obtain ⟨hplain, hplainTree, hplainEnd⟩ := Plain.delivers.run hspells s t
  obtain ⟨hedited, heditedTree, heditedEnd⟩ := LineEditor.delivers.run htypes s t
  obtain ⟨hdesk, hdeskTree⟩ := Desk.pressAll_typedLines hfollows elapsed lines
  refine ⟨⟨hplain, hplainTree, ?_, hplainEnd⟩, ⟨?_, ?_, heditedEnd⟩, ?_, ?_⟩
  · rw [hplain]
    exact Session.isFinished_feed s t lines
  · exact hedited.trans hplain.symm
  · exact heditedTree.trans hplainTree.symm
  · exact hdesk.trans hplain.symm
  · exact hdeskTree.trans hplainTree.symm

/-- A blank line before a command, and an empty line as a path. -/
theorem run_agree_on_blank_lines :
    (∀ line ∈ [" ", "c", "", "1+1"], '\n' ∉ line.toList) ∧
      (Plain.console.run (.new ⟨[], ⟨"h.log"⟩⟩ ⟨"/d"⟩) (.empty [])
        (.start ([" ", "c", "", "1+1"].flatMap Plain.lineBytes) none)).session.history =
          ⟨["1+1 = 2"], ⟨"h.log"⟩⟩ := by
  have hlines : ∀ line ∈ [" ", "c", "", "1+1"], '\n' ∉ line.toList := by decide
  obtain ⟨-, -, hdesk, -⟩ := run_agree (.new ⟨[], ⟨"h.log"⟩⟩ ⟨"/d"⟩) (.empty [])
    [" ", "c", "", "1+1"] hlines 1 0 (.new _ _) rfl rfl rfl rfl
  refine ⟨hlines, ?_⟩
  rw [← hdesk]
  decide +kernel

end Reckoner
