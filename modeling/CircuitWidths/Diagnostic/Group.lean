import CircuitWidths.Diagnostic.Basic
import CircuitWidths.Source.Files

/-!
# Groups of remarks

Remarks about places of a file that lie close together are shown in one excerpt.  Each remark
joins the first group that it is close enough to, which makes the group's span grow, or starts a
group of its own.
-/

namespace CircuitWidths

namespace Diagnostic

/-- How a diagnostic is shown: the number of lines around a place, how far apart two
places may be to share an excerpt, if they may at all, and whether colours are used. -/
structure Settings where
  context : Nat := 2
  merge : Option Nat := some 3
  styled : Bool := true
  deriving DecidableEq, Repr

/-- Remarks shown together, and the span that they cover. -/
structure Group where
  span : Source.Span
  primary : Remark
  others : List Remark
  deriving DecidableEq, Repr

namespace Group

/-- The group of a single remark. -/
def single (remark : Remark) : Group := ⟨remark.span, remark, []⟩

/-- All remarks of the group in order. -/
def remarks (group : Group) : List Remark := group.primary :: group.others

/-- Whether an extent is at most `limit` lines away from the group.  The limit has to be
countable only where there is a distance to compare it with. -/
def isNear (sources : Source.Files) (limit : Nat) (extent : Source.Extent) (group : Group) :
    Except Source.Fault Bool := do
  let covered ← sources.extent group.span
  match extent.distance? covered with
  | some distance => do
    let limit ← Source.countable limit
    .ok (decide (distance ≤ limit))
  | none => .ok false

/-- The group with one more remark. -/
def add (group : Group) (remark : Remark) : Except Source.Fault Group := do
  let span ← group.span.join remark.span
  .ok { group with span := span, others := group.others ++ [remark] }

end Group

/-- Adds a remark to the first group near it, or as a group of its own after all others. -/
def placeNear (sources : Source.Files) (limit : Nat) (extent : Source.Extent)
    (remark : Remark) : List Group → Except Source.Fault (List Group)
  | [] => .ok [.single remark]
  | group :: rest => do
    if ← group.isNear sources limit extent then
      let grown ← group.add remark
      .ok (grown :: rest)
    else
      let placed ← placeNear sources limit extent remark rest
      .ok (group :: placed)

/-- Adds a remark to the groups made so far.  The context of two neighbouring excerpts may
fill the lines between them, so it counts toward their distance. -/
def place (sources : Source.Files) (settings : Settings) (groups : List Group)
    (remark : Remark) : Except Source.Fault (List Group) := do
  let extent ← sources.extent remark.span
  match settings.merge with
  | some distance =>
    placeNear sources (2 * settings.context + distance) extent remark groups
  | none => .ok (groups ++ [.single remark])

/-- The groups of the remarks, placed in order. -/
def groupAll (sources : Source.Files) (settings : Settings) (remarks : List Remark) :
    Except Source.Fault (List Group) :=
  remarks.foldlM (place sources settings) []

end Diagnostic

end CircuitWidths
