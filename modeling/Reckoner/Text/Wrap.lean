import Reckoner.Text.Blank
import Reckoner.Text.Width

/-!
# Wrapping text

Words are put on lines from left to right, each on the line of the word before it if it fits there
behind a space. A word that is wider than a whole line is cut into chunks on lines of their own. The
chunks are measured by the greater character width, so that they fit on every terminal; a single
character that is wider than the line still gets a line.
-/

namespace Reckoner.Text

namespace Measure

/-- The chunks of a word, after a chunk of width `w` that has been begun. -/
def chunksFrom (m : Measure) (limit : Nat) (chunk : List Char) (w : Nat) :
    List Char → List (List Char)
  | [] => if chunk = [] then [] else [chunk]
  | c :: cs =>
    if chunk = [] then m.chunksFrom limit [c] (m.wide c) cs
    else if limit < w + m.wide c then chunk :: m.chunksFrom limit [c] (m.wide c) cs
    else m.chunksFrom limit (chunk ++ [c]) (w + m.wide c) cs

/-- A word cut into chunks no wider than `limit`. -/
def chunks (m : Measure) (limit : Nat) (word : List Char) : List (List Char) :=
  m.chunksFrom limit [] 0 word

/-- The lines for words, after a line of width `w` that has been begun. -/
def wrapFrom (m : Measure) (limit : Nat) (line : List Char) (w : Nat) :
    List (List Char) → List (List Char)
  | [] => if line = [] then [] else [line]
  | word :: words =>
    if limit < m.width word then
      (if line = [] then [] else [line]) ++ m.chunks limit word ++ m.wrapFrom limit [] 0 words
    else if line = [] then m.wrapFrom limit word (m.width word) words
    else if limit < w + m.width word + 1 then line :: m.wrapFrom limit word (m.width word) words
    else m.wrapFrom limit (line ++ ' ' :: word) (w + 1 + m.width word) words

/-- The lines of a text wrapped at a width. Nothing fits on lines of no width, and then there is one
empty line. -/
def wrap (m : Measure) (limit : Nat) (cs : List Char) : List (List Char) :=
  if limit = 0 then [[]] else m.wrapFrom limit [] 0 (words cs)

end Measure

/-- The lines of a text wrapped at a width on a terminal. -/
def wrap (limit : Nat) (cs : List Char) : List (List Char) := terminal.wrap limit cs

end Reckoner.Text
