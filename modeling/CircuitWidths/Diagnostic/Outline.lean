import CircuitWidths.Renderer

/-!
# Diagnostics as they are shown

The excerpts of a diagnostic are handed to the renderer.  What it shows of them can be outlined: the
places of the sections, the numbers of the shown lines, and the footers.
-/

namespace CircuitWidths

namespace Diagnostic

/-- Draws a diagnostic over its sources. -/
def draw (sources : Source.Files) (settings : Settings) (diagnostic : Diagnostic) :
    Except Source.Fault Drawing := do
  let excerpts ← diagnostic.excerpts sources settings
  let sections ← excerpts.mapM Section.ofExcerpt
  .ok ⟨diagnostic.title, sections, diagnostic.footers⟩

/-- The headers, line numbers and footers of a drawing. -/
structure Outline where
  headers : List String
  lines : List Nat
  footers : List String
  deriving DecidableEq, Repr

/-- Collects entries by their kinds. -/
def Outline.ofEntries (entries : List Entry) : Outline :=
  { headers := entries.filterMap fun
      | .header text => some text
      | _ => none
    lines := entries.filterMap fun
      | .line number => some number
      | _ => none
    footers := entries.filterMap fun
      | .footer text => some text
      | _ => none }

/-- What is read off a drawing. -/
def Drawing.outline (drawing : Drawing) : Outline :=
  Outline.ofEntries (drawing.lines.filterMap Entry.read?)

end Diagnostic

end CircuitWidths
