import Reckoner.Text.Blank

/-!
# Commands

A line is a command. One letter in either case quits, shows the history, saves it or changes its
path; every other line is to be evaluated, with all its calculations if it begins with the word
`details` and one space and goes on after them. Blanks around a line do not count.
-/

namespace Reckoner

/-- What a line asks for. -/
inductive Command where
  | quit
  | showHistory
  | save
  | changePath
  /-- Evaluate an expression, listing the calculations if `detailed`. -/
  | evaluate (expression : String) (detailed : Bool)
deriving DecidableEq, Repr

namespace Command

/-- What asks for the calculations to be listed. -/
def detailsWord : List Char := "details ".toList

/-- The command for a line without blanks around it. -/
def ofTrimmed (cs : List Char) : Command :=
  match Text.lowerAscii cs with
  | ['q'] => .quit
  | ['h'] => .showHistory
  | ['s'] => .save
  | ['c'] => .changePath
  | lower =>
    if detailsWord.isPrefixOf lower && detailsWord.length < cs.length then
      .evaluate (String.ofList (Text.trim (cs.drop detailsWord.length))) true
    else .evaluate (String.ofList cs) false

/-- The command that a line is. -/
def ofLine (line : String) : Command := ofTrimmed (Text.trim line.toList)

end Command

end Reckoner
