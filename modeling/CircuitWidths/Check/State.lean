import CircuitWidths.Check.Rejection
import CircuitWidths.Signature
import CircuitWidths.Ty.Unify

/-!
# The state of checking

Nodes are checked one after another over one state: the links of type variables, the constraints
of the node at hand, the signatures of earlier nodes, a counter for generated widths, and the
diagnostics reported so far.  A step keeps what it has done to the state also when it fails.
-/

namespace CircuitWidths

/-- Whether equations between equal widths are kept, and how the names of generated widths
begin. -/
structure CheckSettings where
  keepTrivial : Bool := false
  widthStem : String := "$w"
  deriving DecidableEq, Repr

/-- The state shared by the checks of all nodes. -/
structure Checker extends Unification where
  settings : CheckSettings
  catalog : Catalog
  nextWidth : Nat
  reported : List Diagnostic

/-- Why a check stops: the circuit is rejected, or something went wrong. -/
inductive Stop
  | rejected (rejection : Rejection)
  | fault (fault : CheckFault)
  deriving DecidableEq, Repr

/-- A step of checking. -/
abbrev CheckM := EStateM Stop Checker

namespace Checker

/-- The state before any node is checked. -/
def start (settings : CheckSettings) : Checker where
  types := .empty 0
  constraints := .empty settings.keepTrivial
  settings := settings
  catalog := .empty
  nextWidth := 0
  reported := []

/-- Adds a diagnostic to those reported. -/
def report (checker : Checker) (diagnostic : Diagnostic) : Checker :=
  { checker with reported := checker.reported ++ [diagnostic] }

/-- Makes the signature of a node known. -/
def register (checker : Checker) (name : String) (signature : Signature) : Checker :=
  { checker with catalog := checker.catalog.register name signature }

/-- Drops all pending constraints. -/
def dropConstraints (checker : Checker) : Checker :=
  { checker with constraints := checker.constraints.drain.2 }

end Checker

namespace CheckM

/-- Rejects the circuit for a reason at a place. -/
def reject {α : Type} (span : Source.Span) (cause : Cause) : CheckM α :=
  throw (.rejected ⟨span, cause⟩)

/-- Runs a step on the type store. -/
def onTypes {α : Type} (step : StoreM α) : CheckM α := fun checker =>
  match step checker.types with
  | .ok value types => .ok value { checker with types := types }
  | .error fault types => .error (.fault (.misuse fault)) { checker with types := types }

/-- A new type variable. -/
def freshTy : CheckM Ty := fun checker =>
  let (ty, types) := checker.types.fresh
  .ok ty { checker with types := types }

/-- A generated width whose name has not been used before. -/
def freshWidth : CheckM Static.Expr := fun checker =>
  .ok (.var (checker.settings.widthStem ++ checker.nextWidth.repr))
    { checker with nextWidth := checker.nextWidth + 1 }

/-- Adds a pending constraint. -/
def emit (condition : Static.Expr) : CheckM Unit :=
  modify fun checker => { checker with constraints := checker.constraints.emit condition }

/-- Takes out all pending constraints. -/
def drain : CheckM (List Static.Expr) := fun checker =>
  .ok checker.constraints.drain.1 checker.dropConstraints

/-- Makes a signature known. -/
def register (name : String) (signature : Signature) : CheckM Unit :=
  modify fun checker => checker.register name signature

/-- The outcome of unification as a value. -/
def tryUnify (found expected : Ty) : CheckM (Except UnifyError Unit) := fun checker =>
  match Unification.unify found expected checker.toUnification with
  | .ok () state => .ok (.ok ()) { checker with toUnification := state }
  | .error error state => .ok (.error error) { checker with toUnification := state }

/-- Makes two types equal, or rejects the circuit at `span`. -/
def unifyAt (span : Source.Span) (found expected : Ty) : CheckM Unit := do
  match ← tryUnify found expected with
  | .ok () => pure ()
  | .error .mismatch =>
    let resolvedFound ← onTypes (TypeStore.resolve found)
    let resolvedExpected ← onTypes (TypeStore.resolve expected)
    reject span (.typeMismatch resolvedFound resolvedExpected)
  | .error (.resultArity foundCount expectedCount) =>
    reject span (.resultArity foundCount expectedCount)
  | .error (.fault fault) => throw (.fault fault)

/-- Rejects static expressions of the wrong kind. -/
def expectKind (span : Source.Span) (expr : Static.Expr) (expected : Static.Kind) :
    CheckM Unit :=
  match expr.expectKind expected with
  | .ok () => pure ()
  | .error mismatch => reject span (.kindMismatch mismatch.found mismatch.expected)

end CheckM

end CircuitWidths
