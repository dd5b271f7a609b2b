import CircuitWidths.Renderer.Stroke

/-!
# Placement of labels

The strokes under a row share one line.  A label stands behind its stroke if there is room for it.
Otherwise it hangs below, on a line that no label further to the right uses.
-/

namespace CircuitWidths

namespace Diagnostic

/-- A stroke, and how far below the line of strokes its label hangs; zero is behind the stroke. -/
structure Placement where
  mark : Mark
  stroke : Stroke
  depth : Nat
  deriving DecidableEq, Repr

/-- The label at a stroke; a mark that goes on has its label at the end. -/
def labelAt (mark : Mark) (stroke : Stroke) : String :=
  if stroke.part = .opening then "" else mark.label

namespace Stroke

/-- Whether a stroke that is made `more` columns longer meets another one. -/
def meets (left : Stroke) (more : Nat) (right : Stroke) : Bool :=
  (right.first ≤ left.first && left.first < right.stop) ||
    (left.first ≤ right.first && right.first < left.stop + more)

/-- Whether the stroke is tied to a rail. -/
def isTied (stroke : Stroke) : Bool := stroke.part != .whole

end Stroke

namespace Placement

/-- Whether a label can not stand behind its stroke because of a stroke before it.  A stroke of the
same columns without a label is drawn as one with it. -/
def isBlocked (mark : Mark) (stroke : Stroke) (other : Mark × Stroke) : Bool :=
  let merges := other.2.first == stroke.first && other.2.stop == stroke.stop &&
    (labelAt other.1 other.2).isEmpty
  !(labelAt mark stroke).isEmpty && other.2.meets 0 stroke && !merges

/-- Whether what comes before a stroke has to be placed below it. -/
def pushes (depth : Nat) (mark : Mark) (stroke : Stroke) (other : Mark × Stroke) : Bool :=
  let label := labelAt other.1 other.2
  let labelled := !(labelAt mark stroke).isEmpty
  let near := other.2.meets (Text.byteLength label.toList + 2) stroke
  (near && labelled && !label.isEmpty) || (stroke.isTied && !label.isEmpty) ||
    (labelled && other.2.isTied) || (stroke.isTied && other.2.isTied) ||
    (near && other.2.stop ≤ stroke.stop && !label.isEmpty && depth == 0)

/-- Places strokes that are given from right to left, the first one at the given depth or, if it is
blocked there, one below. -/
def placeFrom (depth : Nat) : List (Mark × Stroke) → List Placement
  | [] => []
  | (mark, stroke) :: rest =>
    let here := if depth = 0 ∧ rest.any (isBlocked mark stroke) then 1 else depth
    let next := if rest.any (pushes here mark stroke) then here + 1 else here
    ⟨mark, stroke, here⟩ :: placeFrom next rest

/-- Places the strokes under a row. -/
def ofStrokes (strokes : List (Mark × Stroke)) : List Placement :=
  placeFrom 0 (strokes.mergeSort fun left right => right.2.first ≤ left.2.first)

/-- The line on which the label stands, where the strokes are on line zero; there is a line between
the strokes and the labels that hang. -/
def labelLine (placement : Placement) : Nat :=
  if placement.depth = 0 then 0 else placement.depth + 1

/-- The number of lines that placements take up. -/
def height (placements : List Placement) : Nat :=
  (placements.map fun placement => placement.labelLine + 1).foldl max 0

/-- The columns of the stroke, also if its ends are reversed. -/
def extent (placement : Placement) : Nat :=
  max (placement.stroke.stop - placement.stroke.first)
    (placement.stroke.first - placement.stroke.stop)

end Placement

end Diagnostic

end CircuitWidths
