import CircuitWidths.Diagnostic.Excerpt
import CircuitWidths.Renderer.View

/-!
# Sections of a drawing

A section shows one excerpt under the place of its main mark.  All marks have to fit the rows of
the excerpt, and there has to be a view on the rows.
-/

namespace CircuitWidths

namespace Diagnostic

namespace Excerpt

/-- The rows of the excerpt. -/
def rows (excerpt : Excerpt) : List Row := Row.ofText excerpt.text

/-- The rows with their line numbers, counted from one. -/
def numberedRows (excerpt : Excerpt) : List (Nat × Row) :=
  excerpt.rows.zipIdx.map fun (row, index) => (excerpt.firstLine + index + 1, row)

/-- The numbers of the shown lines. -/
def lineNumbers (excerpt : Excerpt) : List Nat := excerpt.numberedRows.map (·.1)

/-- The line and column of the main mark, counted from one; the first line and column of the file
if no row holds it. -/
def location (excerpt : Excerpt) : Except Source.Fault (Nat × Nat) :=
  match excerpt.numberedRows.find? fun (_, row) => row.holds excerpt.primary.start with
  | some (number, row) => do
    let chars ← row.before excerpt.primary.start
    .ok (number, chars.length + 1)
  | none => .ok (1, 1)

/-- The marks as they are drawn.  The main mark may end one byte after the text; the others lie in
the text, and do not repeat a range of several rows. -/
def placedMarks (excerpt : Excerpt) : Except Source.Fault (List Mark) := do
  let primary := excerpt.primary
  if Text.byteLength excerpt.text + 1 < primary.stop then
    .error (.notText primary.start primary.stop)
  else
    let others ← Mark.amongAll excerpt.text [primary] excerpt.others
    .ok (primary :: others)

/-- The strokes of a mark, each with the mark. -/
def strokes (excerpt : Excerpt) (mark : Mark) : Except Source.Fault (List (Mark × Stroke)) := do
  let drawn ← mark.strokes excerpt.rows
  .ok (drawn.map fun stroke => (mark, stroke))

end Excerpt

/-- An excerpt with the strokes of its marks, the view on its rows, and the line and column of the
main mark, counted from one. -/
structure Section where
  excerpt : Excerpt
  strokes : List (Mark × Stroke)
  view : View
  line : Nat
  column : Nat
  deriving DecidableEq, Repr

namespace Section

/-- Places the marks of an excerpt, the longest first, and finds where it is. -/
def ofExcerpt (excerpt : Excerpt) : Except Source.Fault Section := do
  let marks ← excerpt.placedMarks
  let strokes ← (marks.mergeSort Mark.isLonger).mapM excerpt.strokes
  let view ← (Measure.ofRows excerpt.firstLine excerpt.rows strokes.flatten).view
  let (line, column) ← excerpt.location
  .ok ⟨excerpt, strokes.flatten, view, line, column⟩

/-- The line and column as they are shown. -/
def position (part : Section) : String :=
  ":" ++ part.line.repr ++ ":" ++ part.column.repr

/-- The marks that go over several rows; each has a rail of its own beside the code. -/
def tallMarks (part : Section) : List Mark :=
  (part.strokes.filter fun (_, stroke) => stroke.part == .opening).map (·.1)

end Section

end Diagnostic

end CircuitWidths
