import Reckoner.Text.Invisible
import Reckoner.Text.Marks

/-!
# Clusters

A *cluster* is what is drawn in one place: a character with the marks behind it, the letters of a
Korean syllable, or a carriage return with its line feed. Whether two characters that follow each
other belong together depends on these two alone.
-/

namespace Reckoner.Text

/-! ### Korean syllables -/

/-- What a character contributes to a Korean syllable. -/
inductive SyllablePart where
  /-- A consonant at the beginning. -/
  | leading
  | vowel
  /-- A consonant at the end. -/
  | trailing
  /-- A syllable that ends in a vowel. -/
  | openSyllable
  /-- A syllable that ends in a consonant. -/
  | closedSyllable
deriving DecidableEq, Repr

/-- The part of a Korean syllable that a character is. There are 28 syllables for each beginning and
vowel, the first of them open. -/
def syllablePart? (c : Char) : Option SyllablePart :=
  let n := c.toNat
  if (0x1100 ≤ n && n ≤ 0x115F) || (0xA960 ≤ n && n ≤ 0xA97C) then some .leading
  else if (0x1160 ≤ n && n ≤ 0x11A7) || (0xD7B0 ≤ n && n ≤ 0xD7C6) then some .vowel
  else if (0x11A8 ≤ n && n ≤ 0x11FF) || (0xD7CB ≤ n && n ≤ 0xD7FB) then some .trailing
  else if 0xAC00 ≤ n && n ≤ 0xD7A3 then
    if (n - 0xAC00) % 28 = 0 then some .openSyllable else some .closedSyllable
  else none

/-- Whether a syllable goes on from one part to the next. -/
def SyllablePart.goesOn : SyllablePart → SyllablePart → Bool
  | leading, next => next != trailing
  | vowel, next | openSyllable, next => next = vowel || next = trailing
  | trailing, next | closedSyllable, next => next = trailing

/-- Whether two characters are parts of one syllable. -/
def inOneSyllable (c d : Char) : Bool :=
  match syllablePart? c, syllablePart? d with
  | some p, some q => p.goesOn q
  | _, _ => false

/-! ### Clusters -/

/-- The character that joins others into one picture. -/
def joiner : Char := '\u200D'

/-- The shades of skin that change the picture before them. -/
def shades : Ranges := [(0x1F3FB, 0x1F3FF)]

/-- Whether a character belongs to the one before it, whichever that is. -/
def isAttached (c : Char) : Bool := c == joiner || marks.contains c || shades.contains c

/-- Whether a character belongs in one cluster with the character before it. -/
def joins (c d : Char) : Bool :=
  (c == '\r' && d == '\n') || (isAttached d && !controls.contains c) || inOneSyllable c d

/-- Put a character in front of clusters. -/
def consCluster (c : Char) : List (List Char) → List (List Char)
  | [] => [[c]]
  | g :: gs => if g.head?.any (joins c) then (c :: g) :: gs else [c] :: g :: gs

/-- The clusters of a text. -/
def clusters (cs : List Char) : List (List Char) := cs.foldr consCluster []

theorem flatten_consCluster (c : Char) (gs : List (List Char)) :
    (consCluster c gs).flatten = c :: gs.flatten := by
  cases gs with
  | nil => rfl
  | cons g gs => simp only [consCluster]; split <;> rfl

/-- Clusters put together are the text. -/
theorem flatten_clusters (cs : List Char) : (clusters cs).flatten = cs := by
  induction cs with
  | nil => rfl
  | cons c cs ih => simpa [clusters, flatten_consCluster] using ih

end Reckoner.Text
