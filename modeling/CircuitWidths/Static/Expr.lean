import CircuitWidths.Bindings

/-!
# Static expressions

Widths of buses and conditions on them are written as expressions over the static parameters of
a node.  This file holds their syntax, the kind of value they stand for, and simultaneous
substitution.
-/

namespace CircuitWidths

namespace Static

/-- The kind of value that a static expression stands for. -/
inductive Kind
  | int
  | bool
  deriving DecidableEq, Repr

/-- Binary operators on integers, the last five of which compare. -/
inductive Op
  | add
  | sub
  | mul
  | div
  | pow
  | eq
  | lt
  | le
  | gt
  | ge
  deriving DecidableEq, Repr

/-- Whether the operator compares its operands. -/
def Op.isRelational : Op → Bool
  | .eq | .lt | .le | .gt | .ge => true
  | .add | .sub | .mul | .div | .pow => false

/-- The kind of value that the operator gives. -/
def Op.result (op : Op) : Kind :=
  if op.isRelational then .bool else .int

/-- Integer and boolean literals, parameters, and binary operations. -/
inductive Expr
  | int (value : Int)
  | bool (value : Bool)
  | var (name : String)
  | binary (op : Op) (left right : Expr)
  deriving DecidableEq, Repr

/-- An expression of kind `found` stands where one of kind `expected` is needed. -/
structure KindMismatch where
  found : Kind
  expected : Kind
  deriving DecidableEq, Repr

/-- Refuses every kind but the expected one. -/
def Kind.require (found expected : Kind) : Except KindMismatch Unit :=
  if found = expected then .ok () else .error ⟨found, expected⟩

namespace Expr

/-- The kind of the expression; operands have to be integers, the left one being looked at
first. -/
def kind : Expr → Except KindMismatch Kind
  | .int _ => .ok .int
  | .bool _ => .ok .bool
  | .var _ => .ok .int
  | .binary op left right => do
    let leftKind ← left.kind
    leftKind.require .int
    let rightKind ← right.kind
    rightKind.require .int
    .ok op.result

/-- Accepts expressions of the expected kind only. -/
def expectKind (expr : Expr) (expected : Kind) : Except KindMismatch Unit := do
  let found ← expr.kind
  found.require expected

/-- Whether the parameter `name` stands in the expression. -/
def mentions (name : String) : Expr → Bool
  | .int _ => false
  | .bool _ => false
  | .var other => other == name
  | .binary _ left right => left.mentions name || right.mentions name

/-- Replaces all bound parameters at once; parameters without a binding stay. -/
def substitute (bindings : Bindings Expr) : Expr → Expr
  | .int value => .int value
  | .bool value => .bool value
  | .var name => (bindings.get? name).getD (.var name)
  | .binary op left right => .binary op (left.substitute bindings) (right.substitute bindings)

/-- The parameter and its value, if the expression equates a parameter on its left side with
something. -/
def equation? : Expr → Option (String × Expr)
  | .binary .eq (.var name) value => some (name, value)
  | _ => none

end Expr

end Static

end CircuitWidths
