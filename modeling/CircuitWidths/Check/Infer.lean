import CircuitWidths.Check.Rule
import CircuitWidths.Typed.Node

/-!
# Types of expressions

The type of an expression is inferred from the types of the wires in scope.  Arguments are
inferred and made equal to what the rule of their operator or call asks for, from left to right.
-/

namespace CircuitWidths

open CheckM

/-- The types of the wires in scope. -/
abbrev Env := Bindings Ty

/-- The type of a constant. -/
def Circuit.Literal.ty : Circuit.Literal → Ty
  | .bit _ => .bit
  | .bits values => .bits (.int values.length)

namespace Env

/-- The type of a wire in scope. -/
def typeOf (env : Env) (id : Circuit.Ident) : CheckM Ty :=
  match env.get? id.name with
  | some ty => pure ty
  | none => reject id.span (.unboundWire id.name)

mutual

/-- Infers the type of an expression. -/
def infer (env : Env) : Circuit.Expr → CheckM Typed.Expr
  | .const span value => pure (.const span value.ty value)
  | .wire span id => do
    let ty ← env.typeOf id
    pure (.wire span ty id.name)
  | .apply span operator args => do
    let rule ← Rule.ofOperator span operator
    rule.expectArity span args.length
    let typedArgs ← inferAll env args rule.inputs
    rule.demand
    pure (.apply span rule.output operator typedArgs)
  | .call span node statics args => do
    let rule ← Rule.ofCall span node statics
    rule.expectArity span args.length
    let typedArgs ← inferAll env args rule.inputs
    rule.demand
    pure (.call span rule.output node.name statics typedArgs)

/-- Infers the types of arguments and makes each equal to the type expected at its place. -/
def inferAll (env : Env) : List Circuit.Expr → List Ty → CheckM (List Typed.Expr)
  | [], [] => pure []
  | arg :: args, expected :: rest => do
    let typed ← infer env arg
    unifyAt arg.span typed.ty expected
    let typedArgs ← inferAll env args rest
    pure (typed :: typedArgs)
  | _, _ => throw (.fault .unevenLists)

end

/-- It is a fault if the arguments end first. -/
theorem inferAll_nil_cons (env : Env) (expected : Ty) (rest : List Ty) :
    env.inferAll [] (expected :: rest) = throw (.fault .unevenLists) := by
  rw [inferAll] <;> simp

/-- It is a fault if the expected types end first. -/
theorem inferAll_cons_nil (env : Env) (arg : Circuit.Expr) (args : List Circuit.Expr) :
    env.inferAll (arg :: args) [] = throw (.fault .unevenLists) := by
  rw [inferAll] <;> simp

/-- Infers the type of an expression and makes it equal to the expected one. -/
def check (env : Env) (expr : Circuit.Expr) (expected : Ty) : CheckM Typed.Expr := do
  let typed ← env.infer expr
  unifyAt expr.span typed.ty expected
  pure typed

end Env

end CircuitWidths
