import CircuitWidths.Source.Span
import CircuitWidths.Text.Bytes

/-!
# Rows of an excerpt

The rows of a text end at line feeds, together with a carriage return before them; an empty rest
after the last line feed is no row.
-/

namespace CircuitWidths

namespace Diagnostic

/-- A shown line: where it starts in the excerpt, its characters, and the bytes that end it. -/
structure Row where
  offset : Nat
  text : List Char
  terminator : Nat
  deriving DecidableEq, Repr

namespace Row

/-- The row that a line feed ends, from its characters in reverse. -/
def closed (offset : Nat) : List Char → Row
  | '\r' :: body => ⟨offset, body.reverse, 2⟩
  | body => ⟨offset, body.reverse, 1⟩

/-- The rows of a text that starts inside a row, of which the characters so far are given in
reverse. -/
def scan (offset : Nat) (line : List Char) : List Char → List Row
  | [] => if line.isEmpty then [] else [⟨offset, line.reverse, 0⟩]
  | char :: rest =>
    if char = '\n' then
      closed offset line :: scan (offset + Text.byteLength line + 1) [] rest
    else
      scan offset (char :: line) rest

/-- The rows of a text. -/
def ofText (text : List Char) : List Row := scan 0 [] text

/-- The bytes of the characters. -/
def length (row : Row) : Nat := Text.byteLength row.text

/-- The offset at which the characters end. -/
def stop (row : Row) : Nat := row.offset + row.length

/-- The offset at which the terminator ends. -/
def next (row : Row) : Nat := row.stop + row.terminator

/-- The offset up to which a mark may go on the row: one place is left for the end of the text. -/
def reach (row : Row) : Nat := row.stop + max row.terminator 1

/-- Whether a byte of the excerpt belongs to the row; the byte after the last row does. -/
def holds (row : Row) (byte : Nat) : Bool :=
  row.offset ≤ byte && byte < row.reach

/-- The characters of the row before a byte, all of them if it belongs to the terminator. -/
def before (row : Row) (byte : Nat) : Except Source.Fault (List Char) :=
  match Text.takeBytes? (min (byte - row.offset) row.length) row.text with
  | some chars => if row.offset ≤ byte then .ok chars else .error (.notText row.offset byte)
  | none => .error (.notText row.offset byte)

end Row

end Diagnostic

end CircuitWidths
