import CircuitWidths.Check.Infer

/-!
# Bodies

The wires of a body are in scope in all of its equations.  Where a body is chosen because a
parameter equals some value, the value takes the place of the parameter in the types in scope.
-/

namespace CircuitWidths

open CheckM

namespace Env

/-- Puts local wires in scope, hiding outer wires of the same name. -/
def declare (env : Env) : List Circuit.Local → CheckM (Env × List Typed.Wire)
  | [] => pure (env, [])
  | wire :: rest => do
    let ty ← freshTy
    match wire.declared with
    | some declared => unifyAt wire.id.span ty declared.toTy
    | none => pure ()
    let (inner, wires) ← Env.declare (env.insert wire.id.name ty) rest
    pure (inner, ⟨wire.id, ty⟩ :: wires)

/-- The type of the left side of an equation. -/
def patternTy (env : Env) : Circuit.Pattern → CheckM Ty
  | .single id => env.typeOf id
  | .tuple ids => do
    let tys ← ids.mapM env.typeOf
    pure (.product tys)

/-- Checks that the right side of an equation has the type of its left side. -/
def checkEquation (env : Env) (equation : Circuit.Equation) : CheckM Typed.Equation := do
  let expected ← env.patternTy equation.pattern
  let value ← env.check equation.value expected
  pure ⟨equation.span, equation.pattern, value⟩

/-- The types in scope where a condition is known to hold. -/
def assume (env : Env) (condition : Static.Expr) : CheckM Env :=
  match condition.equation? with
  | some (name, value) =>
    env.mapM fun ty => onTypes (TypeStore.substitute (Bindings.empty.insert name value) ty)
  | none => pure env

/-- Checks a body. -/
def checkBlock (env : Env) : Circuit.Block → CheckM Typed.Block
  | .system span locals equations => do
    let (inner, wires) ← env.declare locals
    let typed ← equations.mapM inner.checkEquation
    pure (.system span wires typed)
  | .choice span condition onTrue onFalse => do
    expectKind span condition .bool
    let assumed ← env.assume condition
    let typedTrue ← Env.checkBlock assumed onTrue
    let typedFalse ← Env.checkBlock env onFalse
    pure (.choice span condition typedTrue typedFalse)

end Env

end CircuitWidths
