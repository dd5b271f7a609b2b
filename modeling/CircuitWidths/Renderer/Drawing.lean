import CircuitWidths.Renderer.Placement
import CircuitWidths.Renderer.Section
import CircuitWidths.Renderer.Styled

/-!
# Drawings of diagnostics

A diagnostic is drawn as rows of cells: the title, the excerpts with line numbers and marks under
the places of the remarks, and the footers.
-/

namespace CircuitWidths

namespace Diagnostic

open Text (Cell plain coloured paint blanks overwrite)

/-- The colour of a level. -/
def levelColour : Level → Nat
  | .error => 91
  | .warning => 33
  | .info => 94
  | .note => 92
  | .help => 96

/-- The colour of line numbers and of the frame around excerpts. -/
def frameColour : Nat := 94

/-- Splits a text into lines: each line feed ends one, together with a carriage return before it,
and an empty rest is no line. -/
def textLines (text : String) : List (List Char) :=
  (Row.ofText text.toList).map (·.text)

/-- What points to the place of a section; all sections but the first continue the drawing. -/
def arrow (index : Nat) : String :=
  if index = 0 then "-->" else ":::"

/-- What stands before a label. -/
def labelStart : Level → String
  | .error | .warning => ""
  | .info => "info: "
  | .note => "note: "
  | .help => "help: "

/-- The sign that underlines a place. -/
def underline : Level → Char
  | .error => '^'
  | .warning | .info | .note | .help => '-'

/-- What is written where a row is cut. -/
def cutSign : List Char := "...".toList

/-- The columns of a drawing: those of the line numbers, and those of the rails between the frame
and the code. -/
structure Layout where
  gutter : Nat
  rails : Nat
  deriving DecidableEq, Repr

namespace Layout

/-- The column of a rail. -/
def rail (layout : Layout) (index : Nat) : Nat := layout.gutter + 3 + index

/-- The column in which the code begins, which is set apart from the rails. -/
def code (layout : Layout) : Nat :=
  layout.rail (if layout.rails = 0 then 0 else layout.rails + 1)

/-- The frame left of a row without a line number. -/
def bar (layout : Layout) : List Cell :=
  plain (blanks (layout.gutter + 1)) ++ coloured frameColour ['|']

/-- The row with the place of a section.  A path is set apart from the arrow. -/
def headerRow (layout : Layout) (index : Nat) (part : Section) : List Cell :=
  let path := plain part.excerpt.path.toList
  let sign := overwrite layout.gutter (coloured frameColour (arrow index).toList) []
  overwrite (layout.gutter + 4) path sign ++ plain part.position.toList

/-- Draws the rails of the marks that begin before a row and go on after a place. -/
def drawRails (layout : Layout) (part : Section) (row : Row) (place : Nat) (cells : List Cell) :
    List Cell :=
  part.tallMarks.zipIdx.foldl
    (fun cells (mark, index) =>
      if mark.start < row.offset ∧ place < mark.stop then
        overwrite (layout.rail index) (coloured (levelColour mark.level) ['|']) cells
      else
        cells)
    cells

/-- The row of a source line, as far as it is in view.  Signs are written over the ends of the code
where it is cut. -/
def sourceRow (layout : Layout) (part : Section) (number : Nat) (row : Row) : List Cell :=
  let digits := number.repr.toList
  let frame := coloured frameColour
    (blanks (layout.gutter - digits.length) ++ digits ++ " |".toList)
  let text := Text.flatten row.text
  let shown := part.view.visible text
  let sign := coloured frameColour cutSign
  let code := overwrite layout.code (plain shown) (layout.drawRails part row row.offset frame)
  let code := if part.view.cutsLeft then overwrite layout.code sign code else code
  if part.view.cutsRight (Text.byteLength text) then
    overwrite (layout.code + Text.columns 1 shown - cutSign.length) sign code
  else
    code

/-- Writes a character of one colour on some lines, in the same column. -/
def drawColumn (column : Nat) (cell : Cell) (indices : List Nat) (lines : List (List Cell)) :
    List (List Cell) :=
  indices.foldl (fun lines index => lines.modify index (overwrite column [cell])) lines

/-- Writes what ties a stroke to its rail, which goes down from where a mark begins and up from
where it ends. -/
def drawRailTie (layout : Layout) (part : Section) (placement : Placement) (first : Nat)
    (lines : List (List Cell)) : List (List Cell) :=
  let colour := levelColour placement.mark.level
  let rail := layout.rail (part.tallMarks.findIdx (· == placement.mark))
  let line := placement.depth
  let indices :=
    if placement.stroke.part = .closing then List.range (line + 1)
    else (List.range lines.length).drop (line + 1)
  let level := coloured colour (List.replicate (first - (rail + 1)) '_')
  drawColumn rail ⟨'|', some colour⟩ indices (lines.modify line (overwrite (rail + 1) level))

/-- Writes what ties a stroke to its rail and to its label below. -/
def drawTies (layout : Layout) (part : Section) (row : Row) (placement : Placement)
    (lines : List (List Cell)) : List (List Cell) :=
  let first := layout.code + placement.stroke.first - part.view.hidden (Text.flatten row.text)
  let below := (List.range placement.depth).map (· + 1)
  let hanging := drawColumn first ⟨'|', some (levelColour placement.mark.level)⟩ below
  if placement.stroke.isTied then
    hanging (layout.drawRailTie part placement first lines)
  else if (labelAt placement.mark placement.stroke).isEmpty then
    lines
  else
    hanging lines

/-- Writes the label of a stroke. -/
def drawLabel (layout : Layout) (part : Section) (row : Row) (placement : Placement)
    (lines : List (List Cell)) : List (List Cell) :=
  let mark := placement.mark
  let label := labelAt mark placement.stroke
  let hidden := part.view.hidden (Text.flatten row.text)
  let column :=
    if placement.depth = 0 then placement.stroke.stop + 1 - hidden
    else placement.stroke.first - hidden
  if label.isEmpty then lines
  else
    lines.modify placement.labelLine (overwrite (layout.code + column)
      (coloured (levelColour mark.level) (labelStart mark.level ++ label).toList))

/-- Writes the signs of a stroke. -/
def drawStroke (layout : Layout) (part : Section) (row : Row) (placement : Placement)
    (lines : List (List Cell)) : List (List Cell) :=
  let mark := placement.mark
  let hidden := part.view.hidden (Text.flatten row.text)
  let first := layout.code + placement.stroke.first - hidden
  let stop := layout.code + placement.stroke.stop - hidden
  let signs := List.replicate (stop - first) (underline mark.level)
  lines.modify 0 (overwrite first (coloured (levelColour mark.level) signs))

/-- The rows with the strokes under a source line.  Labels are written over ties, and strokes over
labels, the shortest stroke last. -/
def strokeRows (layout : Layout) (part : Section) (row : Row) (strokes : List (Mark × Stroke)) :
    List (List Cell) :=
  let placements := Placement.ofStrokes strokes
  let byExtent := placements.mergeSort fun left right => right.extent ≤ left.extent
  let frame := layout.drawRails part row row.reach layout.bar
  let lines := List.replicate (Placement.height placements) frame
  let lines := placements.foldl (fun lines item => layout.drawTies part row item lines) lines
  let lines := placements.foldl (fun lines item => layout.drawLabel part row item lines) lines
  byExtent.foldl (fun lines item => layout.drawStroke part row item lines) lines

/-- The rows of a section. -/
def sectionRows (layout : Layout) (index : Nat) (part : Section) : List (List Cell) :=
  let lines := part.excerpt.numberedRows.flatMap fun (number, row) =>
    let strokes := part.strokes.filter fun (_, stroke) => stroke.offset == row.offset
    layout.sourceRow part number row :: layout.strokeRows part row strokes
  layout.headerRow index part :: layout.bar :: lines ++ [layout.bar]

/-- The rows of a footer; further lines are indented to where the first one begins. -/
def footerRows (layout : Layout) (footer : Footer) : List (List Cell) :=
  let level := footer.level.render.toList
  match textLines footer.text with
  | [] => []
  | line :: rest =>
    (plain (blanks (layout.gutter + 1)) ++ coloured frameColour "= ".toList ++
        coloured (levelColour footer.level) level ++
        plain (if line.isEmpty then [] else ": ".toList ++ line)) ::
      rest.map fun further => plain (blanks (layout.gutter + 3 + level.length + 2) ++ further)

end Layout

/-- A diagnostic with its excerpts cut out and their places found. -/
structure Drawing where
  title : String
  sections : List Section
  footers : List Footer
  deriving DecidableEq, Repr

namespace Drawing

/-- The numbers of all lines in the excerpts. -/
def lineNumbers (drawing : Drawing) : List Nat :=
  drawing.sections.flatMap fun part => part.excerpt.lineNumbers

/-- Room for the greatest line number, if there is any, and for the rails of every section. -/
def layout (drawing : Drawing) : Layout :=
  let greatest := drawing.lineNumbers.foldl max 0
  { gutter := if greatest = 0 then 0 else greatest.repr.length
    rails := (drawing.sections.map fun part => part.tallMarks.length).foldl max 0 }

/-- The row with the title. -/
def titleRow (title : String) : List Cell :=
  let word := coloured (levelColour .error) (Level.render .error).toList
  if title.isEmpty then word
  else word ++ plain ": ".toList ++ coloured (levelColour .error) title.toList

/-- All rows of the drawing. -/
def rows (drawing : Drawing) : List (List Cell) :=
  let layout := drawing.layout
  titleRow drawing.title ::
    (drawing.sections.zipIdx.flatMap fun (part, index) => layout.sectionRows index part) ++
    drawing.footers.flatMap layout.footerRows

/-- The text of the drawing. -/
def render (drawing : Drawing) (styled : Bool) : String :=
  "\n".intercalate (drawing.rows.map (paint styled))

end Drawing

end Diagnostic

end CircuitWidths
