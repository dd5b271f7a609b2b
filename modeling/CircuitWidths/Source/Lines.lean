import CircuitWidths.Source.Span
import CircuitWidths.Text.Bytes

/-!
# Lines of a text

A line ends after a line feed, after a carriage return with a line feed, or after a carriage
return alone.  The text after the last of these is a line as well, so every text has at least one
line.
-/

namespace CircuitWidths

namespace Source

/-- Whether a line ends after `char` when `rest` follows: a carriage return before a line feed
leaves the end to the line feed. -/
def endsLine (char : Char) (rest : List Char) : Bool :=
  char == '\n' || (char == '\r' && rest.head? != some '\n')

/-- Whether the character belongs to a line end. -/
def isTerminator (char : Char) : Bool :=
  char == '\n' || char == '\r'

namespace Lines

/-- The offsets at which lines start after the first, when the characters begin at `offset`. -/
def laterStarts (offset : Nat) : List Char → List Nat
  | [] => []
  | char :: rest =>
    let next := offset + char.utf8Size
    if endsLine char rest then next :: laterStarts next rest else laterStarts next rest

/-- The offsets at which the lines of a text start. -/
def starts (chars : List Char) : List Nat :=
  0 :: laterStarts 0 chars

/-- The number of lines. -/
def count (chars : List Char) : Nat :=
  (starts chars).length

/-- The line on which a byte lies; bytes past the end lie on the last line. -/
def lineOf (chars : List Char) (byte : Nat) : Nat :=
  ((laterStarts 0 chars).takeWhile (· ≤ byte)).length

/-- The position of a byte. -/
def position (chars : List Char) (byte : Nat) : Position :=
  let line := lineOf chars byte
  ⟨byte, line, byte - (starts chars)[line]?.getD 0⟩

/-- The offset at which a line starts. -/
def start (chars : List Char) (line : Nat) : Except Fault Nat :=
  match (starts chars)[line]? with
  | some offset => .ok offset
  | none => .error (.noSuchLine line)

/-- The offset at which a line ends, before the characters that terminate it. -/
def stop (chars : List Char) (line : Nat) : Except Fault Nat := do
  let first ← start chars line
  let next := (starts chars)[line + 1]?.getD (Text.byteLength chars)
  match Text.slice? chars first next with
  | some text => .ok (next - (text.reverse.takeWhile isTerminator).length)
  | none => .error (.notText first next)

end Lines

end Source

end CircuitWidths
