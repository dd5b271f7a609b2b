import CircuitWidths.Circuit.Expr
import CircuitWidths.Ty.Basic

/-!
# Nodes

A node has static parameters, input and output ports, and a body.  The body is a set of equations
between wires, or a choice between two bodies by a condition on the parameters.
-/

namespace CircuitWidths

namespace Circuit

/-- The type written at a port or a local wire. -/
inductive DeclaredTy
  | bit
  | bits (width : Static.Expr)
  deriving DecidableEq, Repr

/-- The type that a declaration stands for. -/
def DeclaredTy.toTy : DeclaredTy → Ty
  | .bit => .bit
  | .bits width => .bits width

/-- The left side of an equation: one wire, or several that take the parts of a product. -/
inductive Pattern
  | single (id : Ident)
  | tuple (ids : List Ident)
  deriving DecidableEq, Repr

/-- The wires of the pattern carry the value of the expression. -/
structure Equation where
  span : Source.Span
  pattern : Pattern
  value : Expr
  deriving Repr

/-- A wire inside a body, with a declared type or without. -/
structure Local where
  id : Ident
  declared : Option DeclaredTy
  deriving DecidableEq, Repr

/-- The body of a node. -/
inductive Block
  | system (span : Source.Span) (locals : List Local) (equations : List Equation)
  | choice (span : Source.Span) (condition : Static.Expr) (onTrue onFalse : Block)
  deriving Repr

/-- An input or output of a node. -/
structure Port where
  id : Ident
  span : Source.Span
  declared : DeclaredTy
  deriving DecidableEq, Repr

/-- The definition of a node. -/
structure Node where
  span : Source.Span
  id : Ident
  params : List Ident
  inputs : List Port
  outputs : List Port
  body : Block
  deriving Repr

/-- The names of the static parameters. -/
def Node.paramNames (node : Node) : List String := node.params.map (·.name)

end Circuit

end CircuitWidths
