/-!
# Blank characters, trimming and words

A character is *blank* when it has the Unicode property White_Space. Everything in the program that
skips, trims or splits at spaces uses this one class. A *word* is a maximal run of characters that
are not blank; `words` lists the words of a text in order and `unwords` joins them again with single
spaces.
-/

namespace Reckoner.Text

/-- The characters with the Unicode property White_Space. -/
def isBlank (c : Char) : Bool :=
  let n := c.toNat
  (0x09 ≤ n && n ≤ 0x0D) || n == 0x20 || n == 0x85 || n == 0xA0 || n == 0x1680 ||
    (0x2000 ≤ n && n ≤ 0x200A) || n == 0x2028 || n == 0x2029 || n == 0x202F || n == 0x205F ||
    n == 0x3000

theorem isBlank_space : isBlank ' ' = true := by decide

/-! ### Trimming -/

/-- The text without the blanks at its end. -/
def trimEnd (cs : List Char) : List Char :=
  (cs.reverse.dropWhile isBlank).reverse

/-- The text without the blanks at either end. -/
def trim (cs : List Char) : List Char :=
  trimEnd (cs.dropWhile isBlank)

/-! ### Words -/

/-- Whether the text begins with a character that is not blank. -/
def startsWord (cs : List Char) : Bool :=
  cs.head?.any (!isBlank ·)

/-- The maximal runs of characters that are not blank, in order. -/
def words : List Char → List (List Char)
  | [] => []
  | c :: cs =>
    if isBlank c then words cs
    else if startsWord cs then (words cs).modifyHead (c :: ·)
    else [c] :: words cs

/-- The words with one space between each two. -/
def unwords (ws : List (List Char)) : List Char :=
  [' '].intercalate ws

/-- The letters `A` to `Z` in lower case, every other character as it is. -/
def lowerAscii (cs : List Char) : List Char :=
  cs.map Char.toLower

end Reckoner.Text
