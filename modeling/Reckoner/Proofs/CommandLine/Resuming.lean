import Reckoner.CommandLine
import Reckoner.Proofs.Console.Plain
import Reckoner.Proofs.Session.Resuming

/-!
# A program that is run again

A run of the program with plain input loads the history and feeds it the lines. Behind it the file
has the entries that were loaded and those for the lines (`runLines_of_load`), and since they come
back from the file as they are, a second run begins where the first has ended. So lines may be given
to one run or divided between two (`runLines_append`).
-/

namespace Reckoner.CommandLine

open Files History

variable {p : Path} {h : History} {t u : Tree} {lines : List String}

/-- Run the program with lines as its plain input. -/
def runLines (history cwd : Path) (lines : List String) (t : Tree) : Result :=
  runPlain history cwd (lines.flatMap Plain.lineBytes) t

/-- **A run on lines**, in a tree `u` where whatever is saved to the path of the history is saved as
in `t`. The history is saved with an entry for each line that has a value, as if nothing had been
saved to `t` before, and nothing goes wrong. -/
theorem runLines_of_load (cwd : Path) (hload : load u p = ⟨h, none⟩) (hp : h.path = p)
    (hu : SaveAlike p t u)
    (hlines : ∀ line ∈ lines, '\n' ∉ line.toList ∧ Command.ofLine line ≠ .changePath) :
    (h.extend (Session.entriesFor lines)).save t = ⟨(runLines p cwd lines u).tree, none⟩ ∧
      (runLines p cwd lines u).code = 0 ∧ (runLines p cwd lines u).errors = "" := by
  have hspells : Plain.Spells lines (.start (lines.flatMap Plain.lineBytes) none) :=
    ⟨rfl, fun line hline => (hlines line hline).1, rfl⟩
  obtain ⟨-, htree, hend⟩ := Plain.delivers.run hspells (Session.new h cwd) u
  have hfeed := Session.feed_of_ready (s := Session.new h cwd) rfl
    (fun line hline => (hlines line hline).2) (hp.symm ▸ hu)
  obtain ⟨t', hsave, -⟩ := hu (h.extend (Session.entriesFor lines)) hp
  refine ⟨?_, ?_, ?_⟩
  · have hresult : (runLines p cwd lines u).tree = t' := by
      simp only [runLines, runPlain, hload, htree, hfeed]
      exact congrArg Saving.tree hsave
    rw [hresult, hsave]
  · simp [runLines, runPlain, hload, hend]
  · simp [runLines, runPlain, hload, hend]

/-- **Lines may be divided between two runs.** Where no history file is yet, one run on lines that
do not quit and a second run on more lines come to the same tree as one run on all of them, and the
file has an entry for each line with a value up to the first that quits. No line changes the path.
-/
theorem runLines_append (cwd : Path) (t : Tree) (before behind : List String)
    (hnew : t.read defaultPath = .error .notFound)
    (hlines : ∀ line ∈ before ++ behind, '\n' ∉ line.toList ∧ Command.ofLine line ≠ .changePath)
    (hquit : ∀ line ∈ before, Command.ofLine line ≠ .quit) :
    (runLines defaultPath cwd behind (runLines defaultPath cwd before t).tree).tree =
        (runLines defaultPath cwd (before ++ behind) t).tree ∧
      (runLines defaultPath cwd (before ++ behind) t).tree.read defaultPath =
        .ok (fileBytes (Session.entriesFor (before ++ behind))) := by
  have hbefore : ∀ line ∈ before, '\n' ∉ line.toList ∧ Command.ofLine line ≠ .changePath :=
    fun line hline => hlines line (List.mem_append_left _ hline)
  have hbehind : ∀ line ∈ behind, '\n' ∉ line.toList ∧ Command.ofLine line ≠ .changePath :=
    fun line hline => hlines line (List.mem_append_right _ hline)
  have hload : load t defaultPath = ⟨new defaultPath, none⟩ := by rw [load, hnew]
  have hsaves : SaveAlike defaultPath t t := by
    intro h hp
    obtain ⟨t', hs⟩ := exists_save_of_notFound hp hnew
    exact ⟨t', hs, hs⟩
  obtain ⟨hfirst, -⟩ := runLines_of_load cwd hload rfl hsaves hbefore
  obtain ⟨hwhole, -⟩ := runLines_of_load cwd hload rfl hsaves hlines
  -- the second run begins with the history that the first has saved
  have hreload : load (runLines defaultPath cwd before t).tree defaultPath =
      ⟨(new defaultPath).extend (Session.entriesFor before), none⟩ :=
    load_save_of_unbroken hfirst rfl fun e he =>
      Session.entriesFor_unbroken (fun line hline => (hbefore line hline).1) he
  obtain ⟨hsecond, -⟩ := runLines_of_load cwd hreload rfl (saveAlike_of_save hfirst) hbehind
  have hentries : ((new defaultPath).extend (Session.entriesFor before)).extend
      (Session.entriesFor behind) =
        (new defaultPath).extend (Session.entriesFor (before ++ behind)) := by
    rw [Session.entriesFor_append hquit]
    rfl
  rw [hentries, hwhole] at hsecond
  constructor
  · exact (congrArg Saving.tree hsecond).symm
  · exact Tree.read_write (save_eq_none_iff.1 hwhole).2

/-- A first run saves on the way, asks for the history and ends with a carriage return; the second
quits before its last line. -/
theorem runLines_append_quit :
    let before := ["1+1", "s", "\t(2*3)\r", "h"]
    let behind := ["details 4-1", "1/", "Q", "4"]
    let t := runLines defaultPath ⟨"/"⟩ before (.empty [])
    (runLines defaultPath ⟨"/"⟩ behind t.tree).tree.read defaultPath =
      .ok (Text.Utf8.bytesOf "1+1 = 2\n(2*3) = 6\n4-1 = 3\n") := by
  intro before behind t
  have hnew : (Tree.empty []).read defaultPath = .error .notFound := read_defaultPath_empty []
  have hlines : ∀ line ∈ before ++ behind,
      '\n' ∉ line.toList ∧ Command.ofLine line ≠ .changePath := by decide +kernel
  have hquit : ∀ line ∈ before, Command.ofLine line ≠ .quit := by decide +kernel
  obtain ⟨hsame, hcontent⟩ := runLines_append ⟨"/"⟩ (.empty []) before behind hnew hlines hquit
  have hbytes : fileBytes (Session.entriesFor (before ++ behind)) =
      Text.Utf8.bytesOf "1+1 = 2\n(2*3) = 6\n4-1 = 3\n" := by decide +kernel
  rw [hsame, hcontent, hbytes]

end Reckoner.CommandLine
