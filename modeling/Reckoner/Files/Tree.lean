import Reckoner.Files.Path
import Reckoner.Text.Utf8

/-!
# File trees

A file tree knows what stands at each *location*, a list of names counted from the root. A path
leads to a location by a walk: an absolute path from the root, any other from the working directory,
each piece in turn. All pieces but the last must lead through directories.

The operations are those a program needs to load and save a file: read a file, write a file, create
a directory. Each gives the cause when it fails and then leaves the tree as it was, except that
`createDirectories` keeps the directories it has made before it failed.
-/

namespace Reckoner.Files

/-- The names that lead from the root to a place. -/
abbrev Location := List Piece

/-- What can stand at a location. -/
inductive Node where
  /-- A file with its bytes. -/
  | file (content : List UInt8)
  | directory
deriving DecidableEq, Repr

/-- A file tree. -/
structure Tree where
  /-- The location of the working directory. -/
  here : Location
  /-- What stands where; the root is not listed. -/
  nodes : List (Location × Node)
deriving DecidableEq, Repr

/-- Why a file operation fails. -/
inductive Failure where
  | notFound
  | alreadyExists
  | notDirectory
  | isDirectory
  | nameTooLong
  | nulInPath
deriving DecidableEq, Repr

/-- The text of a failure, with the number the operating system gives it. -/
def Failure.message : Failure → String
  | notFound => "No such file or directory (os error 2)"
  | alreadyExists => "File exists (os error 17)"
  | notDirectory => "Not a directory (os error 20)"
  | isDirectory => "Is a directory (os error 21)"
  | nameTooLong => "File name too long (os error 36)"
  | nulInPath => "file name contained an unexpected NUL byte"

namespace Tree

/-! ### Looking and changing at a location -/

/-- What stands at a location. -/
def node? (t : Tree) (l : Location) : Option Node :=
  if l = [] then some .directory else t.nodes.lookup l

/-- The tree with `n` at a location other than the root. -/
def put (t : Tree) (l : Location) (n : Node) : Tree :=
  { t with nodes := (l, n) :: t.nodes.filter (·.1 != l) }

/-- A tree that holds nothing but the way to its working directory. -/
def empty (here : Location) : Tree :=
  { here, nodes := (List.range here.length).map fun n => (here.take (n + 1), .directory) }

/-! ### Walking -/

/-- The longest name that a file may have, in bytes. -/
def nameLimit : Nat := 255

/-- The longest path, in bytes. -/
def pathLimit : Nat := 4095

/-- How many bytes a text has. -/
def byteLength (cs : List Char) : Nat := (Text.Utf8.encode cs).length

/-- The directory that a piece leads to from a directory. -/
def enter (t : Tree) (l : Location) (piece : Piece) : Except Failure Location :=
  if isVoid piece then .ok l
  else if piece = ['.', '.'] then .ok l.dropLast
  else if nameLimit < byteLength piece then .error .nameTooLong
  else match t.node? (l ++ [piece]) with
    | some .directory => .ok (l ++ [piece])
    | some (.file _) => .error .notDirectory
    | none => .error .notFound

/-- Where a path ends. -/
inductive Target where
  /-- In a directory, reached without a last name. -/
  | directory (l : Location)
  /-- At a name in a directory; `slash` tells whether a slash follows the name. -/
  | entry (directory : Location) (name : Piece) (slash : Bool)
deriving DecidableEq, Repr

/-- Where the pieces of a path end, in reverse order: the last piece that is not empty decides. -/
def targetOf (t : Tree) (start : Location) (reversed : List Piece) : Except Failure Target := do
  match reversed.dropWhile List.isEmpty with
  | [] => .ok (.directory start)
  | name :: before =>
    let l ← before.reverse.foldlM t.enter start
    if name = ['.'] then .ok (.directory l)
    else if name = ['.', '.'] then .ok (.directory l.dropLast)
    else .ok (.entry l name (reversed.head?.any List.isEmpty))

/-- Where a path ends. -/
def target (t : Tree) (p : Path) : Except Failure Target :=
  if p.chars.contains '\x00' then .error .nulInPath
  else if p.isEmpty then .error .notFound
  else if pathLimit < byteLength p.chars then .error .nameTooLong
  else t.targetOf (if p.isAbsolute then [] else t.here) (splitSlashes p.chars).reverse

/-- Whether a name can be looked up. -/
def checkName (name : Piece) : Except Failure Unit :=
  if nameLimit < byteLength name then .error .nameTooLong else .ok ()

/-! ### Reading and writing -/

/-- The bytes of a file. -/
def read (t : Tree) (p : Path) : Except Failure (List UInt8) := do
  match ← t.target p with
  | .directory _ => .error .isDirectory
  | .entry l name slash =>
    checkName name
    match t.node? (l ++ [name]) with
    | none => .error .notFound
    | some .directory => .error .isDirectory
    | some (.file content) => if slash then .error .notDirectory else .ok content

/-- The tree with the bytes in a file, which is created if it is missing. -/
def write (t : Tree) (p : Path) (content : List UInt8) : Except Failure Tree := do
  match ← t.target p with
  | .directory _ => .error .isDirectory
  | .entry l name slash =>
    if slash then .error .isDirectory
    else
      checkName name
      match t.node? (l ++ [name]) with
      | some .directory => .error .isDirectory
      | _ => .ok (t.put (l ++ [name]) (.file content))

/-! ### Directories -/

/-- Whether a path leads to a directory. -/
def isDirectory (t : Tree) (p : Path) : Bool :=
  match t.target p with
  | .ok (.directory _) => true
  | .ok (.entry l name _) => t.node? (l ++ [name]) = some .directory
  | .error _ => false

/-- The tree with a new directory in an existing one. -/
def createDirectory (t : Tree) (p : Path) : Except Failure Tree := do
  match ← t.target p with
  | .directory _ => .error .alreadyExists
  | .entry l name _ =>
    checkName name
    match t.node? (l ++ [name]) with
    | some _ => .error .alreadyExists
    | none => .ok (t.put (l ++ [name]) .directory)

/-- A tree after an operation that may have done a part of its work, and the failure if it did not
do all. -/
structure Attempt where
  /-- The tree afterwards. -/
  tree : Tree
  /-- Why the work was not done, if it was not. -/
  failure : Option Failure
deriving DecidableEq, Repr

/-- Make a directory; a directory that is there already will do. -/
def settleDirectory (t : Tree) (p : Path) : Attempt :=
  match t.createDirectory p with
  | .ok t' => ⟨t', none⟩
  | .error e => ⟨t, if t.isDirectory p then none else some e⟩

/-- Make the first of a chain of directories, each of which lies in the next. If it cannot be made
because something before it is missing, the rest of the chain is made first. -/
def createChain (t : Tree) : List Path → Attempt
  | [] => ⟨t, none⟩
  | p :: ancestors =>
    if p.isEmpty then ⟨t, none⟩
    else match t.createDirectory p with
      | .error .notFound =>
        let made := t.createChain ancestors
        match made.failure with
        | some e => ⟨made.tree, some e⟩
        | none => made.tree.settleDirectory p
      | _ => t.settleDirectory p

/-- Make a directory and the directories that it lies in. -/
def createDirectories (t : Tree) (p : Path) : Attempt :=
  t.createChain (p :: p.ancestors)

/-! ### Listing -/

/-- Everything below the working directory: paths from there, in the order of their characters. -/
def listing (t : Tree) : List (String × Node) :=
  let below := t.nodes.filter fun e => t.here.isPrefixOf e.1 && e.1 != t.here
  let named := below.map fun e =>
    (String.ofList (joinSlashes (e.1.drop t.here.length)), e.2)
  named.mergeSort fun a b => a.1 ≤ b.1

end Tree

end Reckoner.Files
