/-!
# Spans and positions

A span is a range of bytes of one source file.  Seen through the lines of the file, each of its
ends is a position with a line and a column, both counted from zero.
-/

namespace CircuitWidths

namespace Source

/-- Places that do not exist, and spans that can not be made. -/
inductive Fault
  | reversedSpan (start stop : Nat)
  | differentFiles
  | noSuchFile (file : Nat)
  | noSuchLine (line : Nat)
  | notText (start stop : Nat)
  | uncountable (lines : Nat)
  | noView
  deriving DecidableEq, Repr

/-- What is said about a fault, if anything. -/
def Fault.message? : Fault → Option String
  | .reversedSpan start stop =>
    some ("span start " ++ start.repr ++ " after end " ++ stop.repr)
  | .differentFiles | .noSuchFile _ | .noSuchLine _ | .notText _ _ | .uncountable _
  | .noView => none

/-- Lines are counted in 64 bits. -/
def largestCount : Nat := 18446744073709551615

/-- A number of lines, if it can be counted. -/
def countable (lines : Nat) : Except Fault Nat :=
  if lines ≤ largestCount then .ok lines else .error (.uncountable lines)

/-- The bytes of file number `file` from `start` up to, but without, `stop`. -/
structure Span where
  file : Nat
  start : Nat
  stop : Nat
  deriving DecidableEq, Repr

namespace Span

/-- The span between two offsets in order. -/
def between (file start stop : Nat) : Except Fault Span :=
  if start ≤ stop then .ok ⟨file, start, stop⟩ else .error (.reversedSpan start stop)

/-- The span of no bytes at an offset. -/
def emptyAt (file offset : Nat) : Span := ⟨file, offset, offset⟩

/-- The smallest span that holds two spans of the same file. -/
def join (left right : Span) : Except Fault Span :=
  if left.file = right.file then
    between left.file (min left.start right.start) (max left.stop right.stop)
  else
    .error .differentFiles

/-- The number of bytes in the span, none if its ends are out of order. -/
def length (span : Span) : Nat := span.stop - span.start

/-- The text of the span. -/
def render (span : Span) : String :=
  "Span([" ++ span.file.repr ++ "]:" ++ span.start.repr ++ ".." ++ span.stop.repr ++ ")"

end Span

/-- A byte offset with its line and its column, the bytes since the start of the line. -/
structure Position where
  byte : Nat
  line : Nat
  column : Nat
  deriving DecidableEq, Repr

/-- A span seen through the lines of its file. -/
structure Extent where
  file : Nat
  start : Position
  stop : Position
  deriving DecidableEq, Repr

/-- The number of lines from the end of one extent to the start of the other, zero if they share
a line; none for extents of different files. -/
def Extent.distance? (left right : Extent) : Option Nat :=
  if left.file ≠ right.file then
    none
  else if left.stop.line < right.start.line then
    some (right.start.line - left.stop.line)
  else if right.stop.line < left.start.line then
    some (left.start.line - right.stop.line)
  else
    some 0

end Source

end CircuitWidths
