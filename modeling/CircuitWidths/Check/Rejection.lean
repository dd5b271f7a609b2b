import CircuitWidths.Circuit.Expr
import CircuitWidths.Diagnostic.Basic
import CircuitWidths.Static.Render
import CircuitWidths.Ty.Basic

/-!
# Rejections

Why a node is not accepted, where in the source the reason lies, and the diagnostic that says so.
-/

namespace CircuitWidths

/-- Reasons to reject a node.  The types of a mismatch have their links followed. -/
inductive Cause
  | argsArity (found expected : Nat)
  | paramsArity (found expected : Nat)
  | resultArity (found expected : Nat)
  | typeMismatch (found expected : Ty)
  | kindMismatch (found expected : Static.Kind)
  | contradiction (condition : Static.Expr)
  | unboundNode (name : String)
  | unboundWire (name : String)
  deriving DecidableEq, Repr

namespace Cause

/-- The title of a diagnostic for this reason. -/
def title : Cause → String
  | .argsArity _ _ => "wrong number of arguments"
  | .paramsArity _ _ => "wrong number of static parameters"
  | .resultArity _ _ => "wrong number of results"
  | .typeMismatch _ _ => "type mismatch"
  | .kindMismatch _ _ => "static type mismatch"
  | .contradiction _ => "static constraint is always false"
  | .unboundNode name => "unbound node `" ++ name ++ "`"
  | .unboundWire name => "unbound variable `" ++ name ++ "`"

/-- How many things were found and how many were expected. -/
def countLabel (things : String) (found expected : Nat) : String :=
  "found " ++ found.repr ++ " " ++ things ++ ", expected " ++ expected.repr

/-- What is said at the place where the reason lies. -/
def label : Cause → String
  | .argsArity found expected => countLabel "arguments" found expected
  | .paramsArity found expected => countLabel "static parameters" found expected
  | .resultArity found expected => countLabel "results" found expected
  | .typeMismatch found expected =>
    "found type `" ++ found.render ++ "`, expected `" ++ expected.render ++ "`"
  | .kindMismatch found expected =>
    "found static type `" ++ found.render ++ "`, expected `" ++ expected.render ++ "`"
  | .contradiction condition => "constraint `" ++ condition.render ++ "` can never hold"
  | .unboundNode _ => "node not found"
  | .unboundWire _ => "variable not found"

/-- The footer for this reason, if there is one. -/
def footers : Cause → List Footer
  | .contradiction _ =>
    [⟨.help, "this node can not be instantiated with any static parameters"⟩]
  | .argsArity _ _ | .paramsArity _ _ | .resultArity _ _ | .typeMismatch _ _
  | .kindMismatch _ _ | .unboundNode _ | .unboundWire _ => []

end Cause

/-- A reason to reject a node, and where it lies. -/
structure Rejection where
  span : Source.Span
  cause : Cause
  deriving DecidableEq, Repr

namespace Rejection

/-- The parts of the diagnostic for the rejection of a node, which also points to the node's name
unless the reason lies right there. -/
def draft (rejection : Rejection) (node : Circuit.Ident) : Diagnostic.Draft :=
  let begun := (Diagnostic.Draft.titled rejection.cause.title).remark
    ⟨.error, rejection.span, rejection.cause.label⟩
  let placed := if rejection.span = node.span then begun
    else begun.remark ⟨.info, node.span, "while checking node `" ++ node.name ++ "`"⟩
  rejection.cause.footers.foldl Diagnostic.Draft.footer placed

/-- The draft for the rejection of a node when all of its parts are there. -/
theorem draft_eq (rejection : Rejection) (node : Circuit.Ident) :
    rejection.draft node =
      { title := rejection.cause.title
        remarks := ⟨.error, rejection.span, rejection.cause.label⟩ ::
          if rejection.span = node.span then []
          else [⟨.info, node.span, "while checking node `" ++ node.name ++ "`"⟩]
        footers := rejection.cause.footers } := by
  rw [draft, Diagnostic.Draft.foldl_footer]
  split <;> rfl

/-- There is a remark about the place where the reason lies. -/
theorem draft_remarked (rejection : Rejection) (node : Circuit.Ident) :
    (rejection.draft node).remarks ≠ [] := by
  rw [draft_eq]
  exact List.cons_ne_nil _ _

/-- The diagnostic for the rejection of a node. -/
def toDiagnostic (rejection : Rejection) (node : Circuit.Ident) : Diagnostic :=
  (rejection.draft node).complete (rejection.draft_remarked node)

/-- The parts of the diagnostic for the rejection of a node. -/
theorem toDiagnostic_eq (rejection : Rejection) (node : Circuit.Ident) :
    rejection.toDiagnostic node =
      { title := rejection.cause.title
        primary := ⟨.error, rejection.span, rejection.cause.label⟩
        others :=
          if rejection.span = node.span then []
          else [⟨.info, node.span, "while checking node `" ++ node.name ++ "`"⟩]
        footers := rejection.cause.footers } := by
  simp only [toDiagnostic, draft_eq, Diagnostic.Draft.complete, List.head_cons, List.tail_cons]

end Rejection

end CircuitWidths
