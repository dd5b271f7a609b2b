import CircuitWidths.Diagnostic.Group

/-!
# Excerpts of the source

A group is shown on the lines that its span covers and the context lines around them.  Its remarks
become marks, with their ranges counted from the start of the excerpt.
-/

namespace CircuitWidths

namespace Diagnostic

/-- The lines of a file that are shown, and the bytes that they take up without the terminator of
the last one. -/
structure Window where
  firstLine : Nat
  lastLine : Nat
  start : Nat
  stop : Nat
  deriving DecidableEq, Repr

/-- The window on the lines of a span and `context` lines before and after them, as far as the
file has them. -/
def Window.around (file : Source.File) (context : Nat) (span : Source.Span) :
    Except Source.Fault Window := do
  let extent := file.extent span
  let firstLine := extent.start.line - context
  let below ← Source.countable (extent.stop.line + context)
  let lastLine := min below (file.lineCount - 1)
  let start ← file.lineStart firstLine
  let stop ← file.lineStop lastLine
  .ok ⟨firstLine, lastLine, start, stop⟩

/-- A remark with its range counted from the start of the excerpt. -/
structure Mark where
  level : Level
  start : Nat
  stop : Nat
  label : String
  deriving DecidableEq, Repr

/-- The part of a file in which a group is shown. -/
structure Excerpt where
  path : String
  firstLine : Nat
  text : List Char
  primary : Mark
  others : List Mark
  deriving DecidableEq, Repr

namespace Excerpt

/-- All marks in order. -/
def marks (excerpt : Excerpt) : List Mark := excerpt.primary :: excerpt.others

/-- A remark in an excerpt that starts at byte `start` of the file. -/
def mark (start : Nat) (remark : Remark) : Except Source.Fault Mark :=
  let span := remark.span
  if start ≤ span.start ∧ start ≤ span.stop then
    .ok ⟨remark.level, span.start - start, span.stop - start, remark.label⟩
  else
    .error (.notText span.start span.stop)

/-- The excerpt for a group. -/
def ofGroup (sources : Source.Files) (settings : Settings) (group : Group) :
    Except Source.Fault Excerpt := do
  let file ← sources.get group.span.file
  let window ← Window.around file settings.context group.span
  let text ← file.slice window.start window.stop
  let primary ← mark window.start group.primary
  let others ← group.others.mapM (mark window.start)
  .ok ⟨file.path, window.firstLine, text, primary, others⟩

end Excerpt

/-- The excerpts that show all remarks of a diagnostic. -/
def excerpts (sources : Source.Files) (settings : Settings) (diagnostic : Diagnostic) :
    Except Source.Fault (List Excerpt) := do
  let groups ← groupAll sources settings diagnostic.remarks
  groups.mapM (Excerpt.ofGroup sources settings)

end Diagnostic

end CircuitWidths
