import Reckoner.Session.Dialogue

/-!
# The plain console

Lines come from a stream of bytes and messages go to one. An input line reaches to the next line
feed or the end of the stream; all carriage returns and line feeds at its end are dropped. The
output may have room for a limited number of bytes: what does not fit is cut off and the write
fails. A prompt that cannot be written ends the dialogue, a message that cannot be written is
dropped.
-/

namespace Reckoner.Plain

open Text

/-- An output stream. -/
structure Sink where
  /-- The bytes written so far. -/
  written : Array UInt8
  /-- How many more bytes are accepted, if there is a limit. -/
  room : Option Nat
deriving DecidableEq, Repr

namespace Sink

/-- How many of `n` bytes are accepted. -/
def fitting (s : Sink) (n : Nat) : Nat := (s.room.map (min n)).getD n

/-- The stream after bytes were written to it, as many as are accepted. -/
def write (s : Sink) (bs : List UInt8) : Sink :=
  ⟨s.written ++ bs.take (s.fitting bs.length), s.room.map (· - bs.length)⟩

/-- Whether all the bytes are accepted. -/
def accepts (s : Sink) (bs : List UInt8) : Bool := s.fitting bs.length = bs.length

end Sink

/-- A plain console. -/
structure State where
  /-- The bytes not yet read. -/
  input : List UInt8
  output : Sink
deriving DecidableEq, Repr

/-- The console for an input, with an output that accepts `room` bytes if there is a limit. -/
def State.start (input : List UInt8) (room : Option Nat) : State := ⟨input, ⟨#[], room⟩⟩

/-- The byte that ends a line. -/
def lineFeed : UInt8 := 0x0A

/-- The bytes up to the first line feed, with it, and the bytes behind it. -/
def takeLine : List UInt8 → List UInt8 × List UInt8
  | [] => ([], [])
  | b :: bs =>
    if b = lineFeed then ([b], bs)
    else (b :: (takeLine bs).1, (takeLine bs).2)

theorem takeLine_append (bs : List UInt8) : (takeLine bs).1 ++ (takeLine bs).2 = bs := by
  induction bs with
  | nil => rfl
  | cons b bs ih => by_cases h : b = lineFeed <;> simp [takeLine, h, ih]

/-- Whether a character ends a line. -/
def isLineEnd (c : Char) : Bool := c == '\r' || c == '\n'

/-- The text of an input line, without its line ending. -/
def lineText (cs : List Char) : String :=
  String.ofList (cs.reverse.dropWhile isLineEnd).reverse

/-- A message and a line feed as bytes. -/
def lineBytes (message : String) : List UInt8 :=
  Utf8.bytesOf message ++ [lineFeed]

/-- The failure of an output without room. -/
def outputClosed : Breakdown := ⟨none, "closed"⟩

/-- The failure of an input line that is not text. -/
def notText : Breakdown := ⟨some "reading input", "stream did not contain valid UTF-8"⟩

/-- Write the prompt and read a line. -/
def ask (prompt : String) (k : State) : Supply State :=
  let output := k.output.write (lineBytes prompt)
  if k.output.accepts (lineBytes prompt) then
    let cut := takeLine k.input
    if cut.1 = [] then .closed ⟨cut.2, output⟩
    else match Utf8.decode? cut.1 with
      | none => .broken notText ⟨cut.2, output⟩
      | some cs => .line (lineText cs) ⟨cut.2, output⟩
  else .broken outputClosed ⟨k.input, output⟩

/-- The console. -/
def console : Console State where
  display message k := ⟨k.input, k.output.write (lineBytes message)⟩
  ask := ask
  remaining k := k.input.length
  remaining_display _ _ := Nat.le_refl _
  remaining_ask prompt k text k' h := by
    unfold ask at h
    simp only at h
    split at h
    · split at h
      · cases h
      · rename_i hne
        have hl := congrArg List.length (takeLine_append k.input)
        simp only [List.length_append] at hl
        have := List.length_pos_iff.2 hne
        split at h
        · cases h
        · cases h
          show (takeLine k.input).2.length < k.input.length
          omega
    · cases h

end Reckoner.Plain
