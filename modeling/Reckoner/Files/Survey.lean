import Reckoner.Files.Tree

/-!
# Surveys of a disk

A file tree can stand for a part of a disk. `passed` lists the locations that a path leads over, so
a tree that knows what stands at these answers every operation on the path as the disk would.
`changes` lists what an operation has done to the tree, in an order in which it can be done again: a
directory comes before what lies in it.
-/

namespace Reckoner.Files

namespace Location

/-- The absolute path of a location. -/
def path (l : Location) : Path := .ofChars ('/' :: joinSlashes l)

/-- The location of an absolute path that has no dots in it. -/
def ofPath (p : Path) : Location :=
  (splitSlashes p.chars).filter fun piece => !piece.isEmpty

/-- The locations that pieces lead over from a location. -/
def passed (l : Location) : List Piece → List Location
  | [] => []
  | piece :: pieces =>
    if isVoid piece then passed l pieces
    else if piece = ['.', '.'] then passed l.dropLast pieces
    else (l ++ [piece]) :: passed (l ++ [piece]) pieces

end Location

namespace Tree

/-- The locations that a path leads over. -/
def passed (t : Tree) (p : Path) : List Location :=
  Location.passed (if p.isAbsolute then [] else t.here) (splitSlashes p.chars)

/-- What stands in a later tree and not in this one, the oldest first. -/
def changes (t later : Tree) : List (Location × Node) :=
  later.nodes.reverse.filter fun e => t.node? e.1 != some e.2

end Tree

end Reckoner.Files
