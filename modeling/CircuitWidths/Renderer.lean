import CircuitWidths.Renderer.Columns
import CircuitWidths.Renderer.Drawing
import CircuitWidths.Renderer.Entry
import CircuitWidths.Renderer.Placement
import CircuitWidths.Renderer.Row
import CircuitWidths.Renderer.Section
import CircuitWidths.Renderer.Stroke
import CircuitWidths.Renderer.Styled
import CircuitWidths.Renderer.View
import CircuitWidths.Renderer.Width

/-!
# The renderer

The modules of this directory stand in for a library that draws snippets of source text with marks
under them.  They are not part of the checker: no diagnostic depends on how it is drawn, and no
theorem speaks about drawings.  What the checker itself decides, which remarks share an excerpt and
which lines it shows, is in `CircuitWidths.Diagnostic.Group` and `CircuitWidths.Diagnostic.Excerpt`.
-/
