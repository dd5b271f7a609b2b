import CircuitWidths.Source.Span

/-!
# Diagnostics

A diagnostic has a title, remarks about places in the source, and footers.  Its first remark is
about the place that matters most, and there is always one.  Diagnostics are put together part by
part as drafts, which are finished when they have a remark.
-/

namespace CircuitWidths

/-- The tone in which something is said. -/
inductive Level
  | error
  | warning
  | info
  | note
  | help
  deriving DecidableEq, Repr

/-- The word for a level. -/
def Level.render : Level → String
  | .error => "error"
  | .warning => "warning"
  | .info => "info"
  | .note => "note"
  | .help => "help"

/-- A remark about a place in the source. -/
structure Remark where
  level : Level
  span : Source.Span
  label : String
  deriving DecidableEq, Repr

/-- Text at the end of a diagnostic. -/
structure Footer where
  level : Level
  text : String
  deriving DecidableEq, Repr

/-- A message about the source: its main remark and all others in order. -/
structure Diagnostic where
  title : String
  primary : Remark
  others : List Remark
  footers : List Footer
  deriving DecidableEq, Repr

namespace Diagnostic

/-- All remarks, the main one first. -/
def remarks (diagnostic : Diagnostic) : List Remark :=
  diagnostic.primary :: diagnostic.others

/-- The parts of a diagnostic before it is known that there is a remark. -/
structure Draft where
  title : String
  remarks : List Remark
  footers : List Footer
  deriving DecidableEq, Repr

/-- A draft without remarks was finished. -/
structure NoRemarks where
  title : String
  deriving DecidableEq, Repr

/-- What is said about a draft without remarks. -/
def NoRemarks.message (fault : NoRemarks) : String :=
  "diagnostic `" ++ fault.title ++ "` has no annotations"

namespace Draft

/-- A draft with nothing but a title. -/
def titled (title : String) : Draft := ⟨title, [], []⟩

/-- Adds a remark behind the others. -/
def remark (draft : Draft) (remark : Remark) : Draft :=
  { draft with remarks := draft.remarks ++ [remark] }

/-- Adds a footer behind the others. -/
def footer (draft : Draft) (footer : Footer) : Draft :=
  { draft with footers := draft.footers ++ [footer] }

/-- Footers are added one behind the other. -/
theorem foldl_footer (draft : Draft) (footers : List Footer) :
    footers.foldl footer draft = { draft with footers := draft.footers ++ footers } := by
  induction footers generalizing draft with
  | nil => simp
  | cons first others ih => simp [ih, footer]

/-- The diagnostic of a draft that is known to have a remark. -/
def complete (draft : Draft) (remarked : draft.remarks ≠ []) : Diagnostic where
  title := draft.title
  primary := draft.remarks.head remarked
  others := draft.remarks.tail
  footers := draft.footers

/-- Makes a diagnostic of a draft with at least one remark. -/
def finish (draft : Draft) : Except NoRemarks Diagnostic :=
  if remarked : draft.remarks ≠ [] then .ok (draft.complete remarked) else .error ⟨draft.title⟩

end Draft

end Diagnostic

end CircuitWidths
