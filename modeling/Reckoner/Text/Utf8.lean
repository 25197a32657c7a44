/-!
# UTF-8

Texts are written to files and consoles as UTF-8. `encode` gives the bytes of a text. Decoding runs
one automaton over the bytes: between two characters it is at rest, and within one it remembers the
bits so far, how many bytes are still owed and which range the next byte must lie in. A byte that
cannot continue the character ends it as *broken*; the byte is then read afresh. `pieces` lists what
is found, `none` for each broken run, so that a strict and a lenient reader differ only in what they
make of `none`.
-/

namespace Reckoner.Text.Utf8

/-- The bytes of a text. -/
def encode (cs : List Char) : List UInt8 :=
  cs.flatMap String.utf8EncodeChar

/-- The bytes of a string. -/
def bytesOf (s : String) : List UInt8 :=
  encode s.toList

/-- The position in bytes of a position in characters; beyond the end there is only the end. -/
def offset (cs : List Char) (n : Nat) : Nat := (encode (cs.take n)).length

/-! ### The automaton -/

/-- A character of several bytes, part of which has been read. -/
structure Partial where
  /-- How many bytes are owed after the next one. -/
  later : Nat
  /-- The least value that the next byte may have. -/
  low : Nat
  /-- The greatest value that the next byte may have. -/
  high : Nat
  /-- The bits of the character read so far. -/
  bits : Nat
deriving DecidableEq, Repr

/-- What a byte means that stands where a character may begin. -/
inductive Lead where
  /-- The byte is a character by itself. -/
  | whole (c : Char)
  /-- The byte begins a longer character. -/
  | opens (p : Partial)
  /-- No character begins with the byte. -/
  | never
deriving DecidableEq, Repr

/-- The meaning of a first byte. Overlong forms, surrogates and values above U+10FFFF are excluded
by the range of the second byte. -/
def lead (b : UInt8) : Lead :=
  let n := b.toNat
  if n < 0x80 then .whole (Char.ofNat n)
  else if n < 0xC2 then .never
  else if n < 0xE0 then .opens ⟨0, 0x80, 0xBF, n % 0x20⟩
  else if n < 0xF0 then
    .opens ⟨1, if n = 0xE0 then 0xA0 else 0x80, if n = 0xED then 0x9F else 0xBF, n % 0x10⟩
  else if n < 0xF5 then
    .opens ⟨2, if n = 0xF0 then 0x90 else 0x80, if n = 0xF4 then 0x8F else 0xBF, n % 0x08⟩
  else .never

/-- Whether the byte continues the character. -/
def Partial.accepts (p : Partial) (b : UInt8) : Bool :=
  p.low ≤ b.toNat && b.toNat ≤ p.high

/-- The bits after a continuation byte. -/
def Partial.extend (p : Partial) (b : UInt8) : Nat :=
  p.bits * 0x40 + b.toNat % 0x40

/-- What a byte gives that stands where a character may begin, and the character it opens. -/
def begin (b : UInt8) : List (Option Char) × Option Partial :=
  match lead b with
  | .whole c => ([some c], none)
  | .opens p => ([], some p)
  | .never => ([none], none)

/-- What a byte gives, and the character that is open after it. -/
def step : Option Partial → UInt8 → List (Option Char) × Option Partial
  | none, b => begin b
  | some p, b =>
    if p.accepts b then
      match p.later with
      | 0 => ([some (Char.ofNat (p.extend b))], none)
      | n + 1 => ([], some ⟨n, 0x80, 0xBF, p.extend b⟩)
    else (none :: (begin b).1, (begin b).2)

/-- The characters and the broken runs of a byte sequence, read from a state of the automaton. -/
def piecesFrom : Option Partial → List UInt8 → List (Option Char)
  | none, [] => []
  | some _, [] => [none]
  | s, b :: bs => (step s b).1 ++ piecesFrom (step s b).2 bs

/-- The characters and, as `none`, the broken runs of a byte sequence. -/
def pieces (bs : List UInt8) : List (Option Char) :=
  piecesFrom none bs

/-! ### Readers -/

/-- The text of the bytes, with U+FFFD for every broken run. -/
def decodeLossy (bs : List UInt8) : List Char :=
  (pieces bs).map (·.getD '\uFFFD')

/-- The text of the bytes, if no run is broken. -/
def decode? (bs : List UInt8) : Option (List Char) :=
  (pieces bs).mapM id

end Reckoner.Text.Utf8
