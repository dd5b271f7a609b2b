import CircuitWidths.Static.Expr

/-!
# Pending constraints

Checking a node collects conditions on its static parameters in the order in which they arise.
They stay pending until they are drained.
-/

namespace CircuitWidths

/-- The conditions collected so far, oldest first, and whether an equation between two equal
sides is collected too. -/
structure Constraints where
  pending : List Static.Expr
  keepTrivial : Bool

namespace Constraints

/-- Nothing collected yet. -/
def empty (keepTrivial : Bool) : Constraints := ⟨[], keepTrivial⟩

/-- Collects one more condition. -/
def emit (constraints : Constraints) (condition : Static.Expr) : Constraints :=
  { constraints with pending := constraints.pending ++ [condition] }

/-- Collects the equation of two expressions; if they are the same, only when trivial equations
are kept. -/
def emitEqual (constraints : Constraints) (left right : Static.Expr) : Constraints :=
  if left = right ∧ constraints.keepTrivial = false then
    constraints
  else
    constraints.emit (.binary .eq left right)

/-- All pending conditions, and what remains when they are taken out. -/
def drain (constraints : Constraints) : List Static.Expr × Constraints :=
  (constraints.pending, { constraints with pending := [] })

end Constraints

end CircuitWidths
