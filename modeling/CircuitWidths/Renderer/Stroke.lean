import CircuitWidths.Diagnostic.Excerpt
import CircuitWidths.Renderer.Columns
import CircuitWidths.Renderer.Row

/-!
# Strokes on the rows of an excerpt

A mark is drawn as one stroke on the row that holds all of it, or as two strokes, on the row on
which it begins and on the row on which it ends.
-/

namespace CircuitWidths

namespace Diagnostic

/-- Which part of a mark a stroke shows. -/
inductive Part
  | whole
  | opening
  | closing
  deriving DecidableEq, Repr

/-- The columns that a mark takes up on the row with the given offset. -/
structure Stroke where
  offset : Nat
  part : Part
  first : Nat
  stop : Nat
  deriving DecidableEq, Repr

namespace Mark

/-- The stroke of a mark that a row holds, at least one column wide if its ends are not reversed. -/
def wholeStroke (row : Row) (mark : Mark) : Except Source.Fault Stroke := do
  let start ← row.before mark.start
  let stop ← row.before mark.stop
  let first := Text.columns 0 start
  let last := Text.columns 0 stop
  .ok ⟨row.offset, .whole, first, if first = last then last + 1 else last⟩

/-- The stroke where a mark begins. -/
def openingStroke (row : Row) (mark : Mark) : Except Source.Fault Stroke := do
  let start ← row.before mark.start
  let first := Text.columns 0 start
  .ok ⟨row.offset, .opening, first, first + 1⟩

/-- The stroke where a mark ends; past the characters it stands one column after them. -/
def closingStroke (row : Row) (mark : Mark) : Except Source.Fault Stroke := do
  let stop ← row.before mark.stop
  let last := Text.columns 0 stop - 1
  let first := if row.stop < mark.stop then last + 1 else last
  .ok ⟨row.offset, .closing, first, first + 1⟩

/-- The strokes of a mark on rows in order.  A mark that begins where the next row does, and does
not reach into it, belongs to the row before. -/
def strokes (mark : Mark) : List Row → Except Source.Fault (List Stroke)
  | [] => .ok []
  | row :: rest =>
    if row.next < mark.start then
      mark.strokes rest
    else if row.offset ≤ mark.start ∧ mark.stop ≤ row.reach then do
      let stroke ← mark.wholeStroke row
      .ok [stroke]
    else if row.holds mark.start then do
      let stroke ← mark.openingStroke row
      let later ← mark.strokes rest
      .ok (stroke :: later)
    else if mark.start < row.offset ∧ row.offset ≤ mark.stop ∧ mark.stop ≤ row.reach then do
      let stroke ← mark.closingStroke row
      .ok [stroke]
    else
      mark.strokes rest

/-- The column after the label, which is separated from the stroke. -/
def labelStop (mark : Mark) (stroke : Stroke) : Nat :=
  stroke.stop + Text.byteLength mark.label.toList + 1

/-- Whether a mark has at least as many bytes as another. -/
def isLonger (left right : Mark) : Bool :=
  decide (right.stop - right.start ≤ left.stop - left.start)

/-- Whether two marks have the same range. -/
def sameRange (left right : Mark) : Bool :=
  left.start == right.start && left.stop == right.stop

/-- A mark that has to lie in the text.  If an earlier one has the same range and goes over several
rows, only the last byte of that range is marked again. -/
def among (text : List Char) (earlier : List Mark) (mark : Mark) : Except Source.Fault Mark :=
  match Text.slice? text mark.start mark.stop with
  | some marked =>
    if 1 < (Row.ofText marked).length ∧ earlier.any (mark.sameRange ·) then
      .ok { mark with start := mark.stop - 1 }
    else
      .ok mark
  | none => .error (.notText mark.start mark.stop)

/-- Places the marks that follow those given. -/
def amongAll (text : List Char) (earlier : List Mark) :
    List Mark → Except Source.Fault (List Mark)
  | [] => .ok []
  | mark :: rest => do
    let placed ← mark.among text earlier
    let later ← amongAll text (earlier ++ [mark]) rest
    .ok (placed :: later)

end Mark

end Diagnostic

end CircuitWidths
