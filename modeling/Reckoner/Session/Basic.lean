import Reckoner.Session.Command
import Reckoner.Session.Reply

/-!
# Sessions

A session takes one line at a time and answers with replies. It owns the history. After the command
to change the path the next line is a path, whatever it says. Quitting and the end of input finish
the session: the history is saved, a failure to save is reported, and then comes the goodbye. A
finished session takes no more lines.

Only saving touches the file tree, so each operation takes the tree and gives it back.
-/

namespace Reckoner

open Files

/-- What a session expects next. -/
inductive Phase where
  /-- A command. -/
  | ready
  /-- The path for the history. -/
  | awaitingPath
  /-- Nothing. -/
  | finished
deriving DecidableEq, Repr

/-- One interactive run. -/
structure Session where
  /-- What has been evaluated. -/
  history : History
  /-- Where bare file names are looked for. -/
  cwd : Path
  /-- What is expected next. -/
  phase : Phase
deriving DecidableEq, Repr

/-- A session and a file tree after a line, and the replies to it. -/
structure Turn where
  /-- The session afterwards. -/
  session : Session
  /-- The tree afterwards. -/
  tree : Tree
  /-- The answers, in order. -/
  replies : List Reply
deriving DecidableEq, Repr

namespace Session

/-- A session at its beginning. -/
def new (history : History) (cwd : Path) : Session := ⟨history, cwd, .ready⟩

/-- Whether the session takes no more lines. -/
def isFinished (s : Session) : Bool := s.phase = .finished

/-- Whether the next line is a path. -/
def isAwaitingPath (s : Session) : Bool := s.phase = .awaitingPath

/-! ### What the session says by itself -/

/-- The first line of a session. -/
def banner (s : Session) : String :=
  "Calculator started. Default history file: " ++ s.history.path.text

/-- The prompt for a command. -/
def commandPrompt : String :=
  "Enter an expression (or 'h' for history, 's' to save, 'c' to change save path, 'q' to quit):"

/-- The prompt for a path. -/
def pathPrompt : String :=
  "Enter a file path to save to (or leave empty to use default):"

/-- The prompt for the next line. -/
def prompt (s : Session) : String :=
  if s.isAwaitingPath then pathPrompt else commandPrompt

/-! ### Taking lines -/

/-- The reply to an attempt to save. -/
def savingReply (h : History) (saving : History.Saving) : Reply :=
  match saving.error with
  | none => .saved h.path
  | some e => .saveFailed h.path e

/-- Save the history and go on. -/
def save (s : Session) (t : Tree) : Turn :=
  let saving := s.history.save t
  ⟨s, saving.tree, [savingReply s.history saving]⟩

/-- Save the history and end the session. -/
def finish (s : Session) (t : Tree) : Turn :=
  if s.isFinished then ⟨s, t, []⟩
  else
    let saving := s.history.save t
    let failed := match saving.error with
      | none => []
      | some e => [Reply.saveFailed s.history.path e]
    ⟨{ s with phase := .finished }, saving.tree, failed ++ [.goodbye]⟩

/-- Evaluate an expression; a value goes into the history. -/
def evaluate (s : Session) (t : Tree) (expression : String) (detailed : Bool) : Turn :=
  let e := Expression.work detailed expression
  match e.outcome with
  | .ok x =>
    ⟨{ s with history := s.history.record expression x }, t, [.value expression x e.steps]⟩
  | .error f => ⟨s, t, [.failed expression f]⟩

/-- Take the answer to the question for a path; a blank one keeps the path. -/
def answerPath (s : Session) (t : Tree) (answer : String) : Turn :=
  let path := (History.resolvePath answer s.cwd).getD s.history.path
  ⟨{ s with history := { s.history with path }, phase := .ready }, t, [.pathChanged path]⟩

/-- Carry out a command. -/
def execute (s : Session) (t : Tree) : Command → Turn
  | .quit => s.finish t
  | .showHistory => ⟨s, t, [.history s.history.entries]⟩
  | .save => s.save t
  | .changePath => ⟨{ s with phase := .awaitingPath }, t, []⟩
  | .evaluate expression detailed => s.evaluate t expression detailed

/-- Take a line. -/
def submit (s : Session) (t : Tree) (line : String) : Turn :=
  match s.phase with
  | .finished => ⟨s, t, []⟩
  | .awaitingPath => s.answerPath t line
  | .ready => s.execute t (.ofLine line)

end Session

end Reckoner
