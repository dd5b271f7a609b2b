import CircuitWidths.Circuit.Node
import CircuitWidths.Signature
import CircuitWidths.Ty.Store

/-!
# Circuits with types

What checking gives: the expressions, bodies and nodes of a circuit with the type of every
expression and wire.  While a node is being checked these types may hold variables, which
`resolve` replaces by what they are linked to.
-/

namespace CircuitWidths

namespace Typed

/-- An expression with its type. -/
inductive Expr
  | const (span : Source.Span) (ty : Ty) (value : Circuit.Literal)
  | wire (span : Source.Span) (ty : Ty) (name : String)
  | apply (span : Source.Span) (ty : Ty) (operator : Circuit.Operator) (args : List Expr)
  | call (span : Source.Span) (ty : Ty) (node : String) (statics : List Static.Expr)
    (args : List Expr)
  deriving Repr

namespace Expr

/-- The type of an expression. -/
def ty : Expr → Ty
  | .const _ ty _ | .wire _ ty _ | .apply _ ty _ _ | .call _ ty _ _ _ => ty

mutual

/-- Resolves the type of an expression and of everything inside it. -/
def resolve : Expr → StoreM Expr
  | .const span ty value => do
    let resolved ← TypeStore.resolve ty
    pure (.const span resolved value)
  | .wire span ty name => do
    let resolved ← TypeStore.resolve ty
    pure (.wire span resolved name)
  | .apply span ty operator args => do
    let resolved ← TypeStore.resolve ty
    let resolvedArgs ← resolveAll args
    pure (.apply span resolved operator resolvedArgs)
  | .call span ty node statics args => do
    let resolved ← TypeStore.resolve ty
    let resolvedArgs ← resolveAll args
    pure (.call span resolved node statics resolvedArgs)

/-- Resolves the types of all expressions, in order. -/
def resolveAll : List Expr → StoreM (List Expr)
  | [] => pure []
  | expr :: rest => do
    let resolved ← expr.resolve
    let resolvedRest ← resolveAll rest
    pure (resolved :: resolvedRest)

end

end Expr

/-- A wire with its type. -/
structure Wire where
  id : Circuit.Ident
  ty : Ty
  deriving DecidableEq, Repr

/-- Resolves the type of a wire. -/
def Wire.resolve (wire : Wire) : StoreM Wire := do
  let resolved ← TypeStore.resolve wire.ty
  pure { wire with ty := resolved }

/-- An equation whose right side has a type. -/
structure Equation where
  span : Source.Span
  pattern : Circuit.Pattern
  value : Expr
  deriving Repr

/-- Resolves the types in the value of an equation. -/
def Equation.resolve (equation : Equation) : StoreM Equation := do
  let resolved ← equation.value.resolve
  pure { equation with value := resolved }

/-- A body with types. -/
inductive Block
  | system (span : Source.Span) (locals : List Wire) (equations : List Equation)
  | choice (span : Source.Span) (condition : Static.Expr) (onTrue onFalse : Block)
  deriving Repr

/-- Resolves all types of a body. -/
def Block.resolve : Block → StoreM Block
  | .system span locals equations => do
    let resolvedLocals ← locals.mapM Wire.resolve
    let resolvedEquations ← equations.mapM Equation.resolve
    pure (.system span resolvedLocals resolvedEquations)
  | .choice span condition onTrue onFalse => do
    let resolvedTrue ← onTrue.resolve
    let resolvedFalse ← onFalse.resolve
    pure (.choice span condition resolvedTrue resolvedFalse)

/-- A checked node. -/
structure Node where
  span : Source.Span
  id : Circuit.Ident
  params : List Circuit.Ident
  inputs : List Wire
  outputs : List Wire
  body : Block
  signature : Signature
  deriving Repr

end Typed

end CircuitWidths
