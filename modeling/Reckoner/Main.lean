import Reckoner.CommandLine
import Reckoner.Files.Survey

/-!
# The program

The command line and the plain console, on the real input, output and disk; a terminal is read by
lines as well. Before a session takes a line, the disk is surveyed along the path of the history,
and what the session then changes in the surveyed tree is done on the disk. Every decision is made
by the functions that this module calls: it only carries bytes to them and from them.
-/

namespace Reckoner.Program

open Files

/-! ### The disk -/

/-- The number of the failure to read from what is a directory. -/
def directoryCode : UInt32 := 21

/-- What stands at a location of the disk. What may not be read can still be a way through. -/
def look (l : Location) : IO (Option Node) := do
  match ← (IO.FS.readBinFile l.path.text).toBaseIO with
  | .ok content => return some (.file content.toList)
  | .error (.inappropriateType _ code _) =>
    return if code = directoryCode then some .directory else none
  | .error (.permissionDenied ..) => return some .directory
  | .error _ => return none

/-- What the disk holds along a path, as seen from a working directory. -/
def survey (here : Location) (p : Path) : IO Tree :=
  let start := Tree.empty here
  (start.passed p).foldlM (fun t l => do
    if (t.node? l).isSome then return t
    match ← look l with
    | some n => return t.put l n
    | none => return t) start

/-- Put something on the disk. -/
def place (l : Location) : Node → IO Unit
  | .directory => IO.FS.createDir l.path.text
  | .file content => IO.FS.writeBinFile l.path.text ⟨content.toArray⟩

/-! ### The dialogue -/

/-- Show a message. -/
def say (message : String) : IO Unit := do
  let output ← IO.getStdout
  output.write ⟨(Plain.lineBytes message).toArray⟩
  output.flush

/-- Let the session do something and show its replies. -/
def act (here : Location) (s : Session) (f : Session → Tree → Turn) : IO Session := do
  let t ← survey here s.history.path
  let turn := f s t
  for (l, n) in t.changes turn.tree do
    place l n
  for reply in turn.replies do
    say reply.text
  return turn.session

/-- Read the bytes up to the next line feed, with it. -/
partial def readLine (input : IO.FS.Stream) (done : ByteArray) : IO ByteArray := do
  let more ← input.read 1
  if more.isEmpty then return done
  let done := done ++ more
  if more.toList = [Plain.lineFeed] then return done
  readLine input done

/-- Go on until the session is finished or a line cannot be read. -/
partial def converse (here : Location) (s : Session) : IO (Option Breakdown) := do
  if s.isFinished then return none
  say s.prompt
  let line ← readLine (← IO.getStdin) .empty
  if line.isEmpty then
    let _ ← act here s Session.finish
    return none
  match Text.Utf8.decode? line.toList with
  | none => return some Plain.notText
  | some cs =>
    let s ← act here s fun s t => s.submit t (Plain.lineText cs)
    converse here s

/-- Calculate with the history at a path. -/
def calculate (history : Path) : IO UInt32 := do
  let cwd : Path := ⟨(← IO.FS.realPath ".").toString⟩
  let here := Location.ofPath cwd
  let loading := History.load (← survey here history) history
  if let some cause := loading.complaint then
    IO.eprintln (History.warning history cause)
  let s := Session.new loading.history cwd
  say s.banner
  match ← converse here s with
  | none => return 0
  | some breakdown =>
    IO.eprint (CommandLine.breakdownReport breakdown)
    return 1

/-- Do what the arguments ask for and give the exit code. -/
def run (arguments : List String) : IO UInt32 := do
  match CommandLine.parse arguments with
  | .error mistake =>
    IO.eprintln mistake.message
    return 2
  | .ok .help =>
    IO.print CommandLine.helpText
    return 0
  | .ok .version =>
    IO.print CommandLine.versionText
    return 0
  | .ok (.calculate history _) => calculate history

end Reckoner.Program

/-- Run the program. -/
def main (arguments : List String) : IO UInt32 :=
  Reckoner.Program.run arguments
