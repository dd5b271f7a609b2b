import CircuitWidths.Renderer.Stroke

/-!
# Views on long rows

A page has a fixed number of columns.  If the rows of an excerpt do not fit beside the line numbers,
they are seen through a view that leaves out characters on the left, on the right, or on both sides.
-/

namespace CircuitWidths

namespace Diagnostic

/-- The columns of a page. -/
def pageColumns : Nat := 140

/-- The columns kept free around what is shown, so that there is room for the signs of a cut. -/
def padding : Nat := 6

/-- The part of the rows that is shown: the characters from `left` to `right`, as far as they fit
into the room.  Rows that end by `limit` are not said to be cut. -/
structure View where
  room : Nat
  left : Nat
  right : Nat
  limit : Nat
  deriving DecidableEq, Repr

namespace View

/-- Whether the rows are cut on the left. -/
def cutsLeft (view : View) : Bool := decide (0 < view.left)

/-- Whether a row of the given length is cut on the right. -/
def cutsRight (view : View) (length : Nat) : Bool :=
  view.limit < length && view.left + view.room < length

/-- The characters of a row that are shown. -/
def visible (view : View) (text : List Char) : List Char :=
  let length := Text.byteLength text
  let left := min view.left length
  let right := if length - view.left ≤ view.room then length else min length view.right
  Text.fitting (right - left) (text.drop left)

/-- The columns of the characters that are left out on the left. -/
def hidden (view : View) (text : List Char) : Nat :=
  Text.columns 1 (text.take (min view.left (Text.byteLength text)))

end View

/-- What decides about the view: the room beside the line numbers, the bytes of the longest row, the
least indentation, where the first stroke begins, and where the last stroke and the last label
end.  All but the first two include padding. -/
structure Measure where
  room : Nat
  longest : Nat
  indent : Nat
  first : Nat
  stop : Nat
  labelStop : Nat
  deriving DecidableEq, Repr

namespace Measure

/-- The measure of rows from a line on, with the strokes of the marks.  Blank rows have no
indentation; without any other row it is as large as can be counted. -/
def ofRows (firstLine : Nat) (rows : List Row) (strokes : List (Mark × Stroke)) : Measure :=
  let digits := (firstLine + 1 + rows.length).repr.length
  let written := rows.filter fun row => row.text.any fun char => !Text.isBlank char
  let indent := (written.map fun row => Text.indentation row.text).foldl min Source.largestCount
  { room := pageColumns - (3 + digits)
    longest := (rows.map (·.length)).foldl max 0
    indent := indent - padding
    first := (strokes.map fun (_, stroke) => stroke.first).min?.getD 0 - padding
    stop := (strokes.map fun (_, stroke) => stroke.stop).foldl max 0 + padding
    labelStop := (strokes.map fun (mark, stroke) => mark.labelStop stroke).foldl max 0 + padding }

/-- The view between two characters.  If it ends with the padding of a stroke or label, a row may
reach into the padding without being cut. -/
def between (measure : Measure) (left right : Nat) : View :=
  let padded := right = measure.stop ∨ right = measure.labelStop
  ⟨measure.room, left, right, if padded then right - padding else right⟩

/-- The view that begins at a character and fills the room. -/
def startingAt (measure : Measure) (left : Nat) : View :=
  measure.between left (left + measure.room)

/-- The view on the rows.  Most of a deep indentation is never shown.  Rows that are still too long
are shown from their indentation, if all labels fit then, or else from before the first stroke,
so that the labels or at least the strokes fit.  There is no view if the labels or strokes end
before it begins. -/
def view (measure : Measure) : Except Source.Fault View :=
  let left := if 20 < measure.indent then measure.indent - 16 else 0
  if measure.longest - left ≤ measure.room then
    .ok (measure.between left (max measure.longest left))
  else if measure.labelStop < measure.indent then
    .error .noView
  else if measure.labelStop - measure.indent ≤ measure.room then
    .ok (measure.startingAt measure.indent)
  else if measure.labelStop < measure.first then
    .error .noView
  else if measure.labelStop - measure.first ≤ measure.room then
    let free := measure.room - (measure.labelStop - measure.first)
    .ok (measure.startingAt (measure.first - free / 2))
  else if measure.stop < measure.first then
    .error .noView
  else if measure.stop - measure.first ≤ measure.room then
    let free := measure.room - (measure.stop - measure.first)
    .ok (measure.startingAt (measure.first - free / 5 * 2))
  else
    .ok (measure.between measure.first measure.stop)

end Measure

end Diagnostic

end CircuitWidths
