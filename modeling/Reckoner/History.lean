import Reckoner.Files.Tree
import Reckoner.Number.Notation
import Reckoner.Text.Blank
import Reckoner.Text.Lines

/-!
# The history and its file

The history lists what has been evaluated, one entry a line, and knows the file it is kept in.
Saving writes every entry with a line feed behind it and makes missing directories first. Loading
reads the lines of the file; bytes that are not text are replaced, never dropped, because the file
is written again from the entries.
-/

namespace Reckoner

open Files

/-- The entries, oldest first, and where they are kept. -/
structure History where
  /-- One line of text for each evaluation. -/
  entries : List String
  /-- The file that the entries are saved to. -/
  path : Path
deriving DecidableEq, Repr

namespace History

/-- The file that is used unless another is chosen. -/
def defaultPath : Path := ⟨"calculator_history.log"⟩

/-- A history without entries. -/
def new (path : Path) : History := ⟨[], path⟩

/-! ### Entries -/

/-- The entry for an expression and its value. -/
def entry (expression : String) (value : Number) : String :=
  expression ++ " = " ++ value.text

/-- The history with one more entry. -/
def record (h : History) (expression : String) (value : Number) : History :=
  { h with entries := h.entries ++ [entry expression value] }

/-! ### The file -/

/-- The entries as text, each ended by a line feed. -/
def fileText (entries : List String) : List Char :=
  entries.flatMap fun e => e.toList ++ ['\n']

/-- The bytes that entries are saved as. -/
def fileBytes (entries : List String) : List UInt8 :=
  Text.Utf8.encode (fileText entries)

/-- The entries that a file with these bytes holds. -/
def entriesOf (content : List UInt8) : List String :=
  (Text.lines (Text.Utf8.decodeLossy content)).map String.ofList

/-- Why a history could not be saved. -/
inductive SaveError where
  /-- The directory for the file cannot be made. -/
  | directory (path : Path) (cause : Failure)
  /-- The file cannot be opened for writing. -/
  | file (path : Path) (cause : Failure)
deriving DecidableEq, Repr

/-- The text of the reason. -/
def SaveError.message : SaveError → String
  | directory p e => "creating directory " ++ p.text ++ ": " ++ e.message
  | file p e => "opening " ++ p.text ++ " for writing: " ++ e.message

/-- A tree after saving, and why saving failed if it did. -/
structure Saving where
  /-- The tree afterwards. -/
  tree : Tree
  /-- The reason, if the history was not saved. -/
  error : Option SaveError
deriving DecidableEq, Repr

/-- Write the file, its directory being there. -/
def writeFile (h : History) (t : Tree) : Saving :=
  match t.write h.path (fileBytes h.entries) with
  | .ok t' => ⟨t', none⟩
  | .error e => ⟨t, some (.file h.path e)⟩

/-- Save the history to its file. -/
def save (h : History) (t : Tree) : Saving :=
  match h.path.parent? with
  | none => h.writeFile t
  | some dir =>
    if dir.isEmpty then h.writeFile t
    else
      let made := t.createDirectories dir
      match made.failure with
      | some e => ⟨made.tree, some (.directory dir e)⟩
      | none => h.writeFile made.tree

/-- A history that was loaded, and why it is empty if its file could not be read. -/
structure Loading where
  history : History
  /-- The failure, unless there is no such file. -/
  complaint : Option Failure
deriving DecidableEq, Repr

/-- Load a history. A missing file gives an empty one. -/
def load (t : Tree) (path : Path) : Loading :=
  match t.read path with
  | .ok content => ⟨⟨entriesOf content, path⟩, none⟩
  | .error .notFound => ⟨new path, none⟩
  | .error e => ⟨new path, some e⟩

/-- The warning about a file that could not be read. -/
def warning (path : Path) (cause : Failure) : String :=
  "Warning: could not read history from " ++ path.text ++ ": " ++ cause.message

/-! ### Choosing another file -/

/-- The name of the file within a directory that was chosen. -/
def fileInDirectory : Path := ⟨"log.log"⟩

/-- What the name of a file ends in when the answer spells out a path. -/
def extension : List Char := ".log".toList

/-- The path that an answer means, `none` if it is blank. A bare name is a file in the working
directory `cwd`; an answer with a slash is a file if it ends in the extension, else a directory. -/
def resolvePath (answer : String) (cwd : Path) : Option Path :=
  let cs := Text.trim answer.toList
  if cs = [] then none
  else if cs.contains '/' then
    if extension.isSuffixOf cs then some (.ofChars cs)
    else some ((Path.ofChars cs).join fileInDirectory)
  else some (cwd.join (.ofChars cs))

end History

end Reckoner
