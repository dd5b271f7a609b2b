import CircuitWidths.Slots
import CircuitWidths.Static.Fold
import CircuitWidths.Static.Render
import CircuitWidths.Text.Separated

/-!
# Types of circuit expressions

A value is nothing, a single bit, a bus whose width is a static expression, or several values
together.  Type variables stand for types that are not known yet; what they are linked to is
kept in a type store.
-/

namespace CircuitWidths

/-- A type variable is a key of the type store that made it. -/
abbrev TyVar := Slots.Key

/-- The type of a circuit expression. -/
inductive Ty
  | unit
  | bit
  | bits (width : Static.Expr)
  | product (members : List Ty)
  | var (id : TyVar)
  deriving Repr

namespace Ty

mutual

/-- Decides whether two types are written the same. -/
def decEq : (left right : Ty) → Decidable (left = right)
  | .unit, .unit => isTrue rfl
  | .bit, .bit => isTrue rfl
  | .bits left, .bits right => decidable_of_iff (left = right) (by simp)
  | .product left, .product right =>
    match decEqAll left right with
    | isTrue same => isTrue (by rw [same])
    | isFalse differs => isFalse (by simpa using differs)
  | .var left, .var right => decidable_of_iff (left = right) (by simp)
  | .unit, .bit | .unit, .bits _ | .unit, .product _ | .unit, .var _ => isFalse (by simp)
  | .bit, .unit | .bit, .bits _ | .bit, .product _ | .bit, .var _ => isFalse (by simp)
  | .bits _, .unit | .bits _, .bit | .bits _, .product _ | .bits _, .var _ => isFalse (by simp)
  | .product _, .unit | .product _, .bit | .product _, .bits _ | .product _, .var _ =>
    isFalse (by simp)
  | .var _, .unit | .var _, .bit | .var _, .bits _ | .var _, .product _ => isFalse (by simp)

/-- Decides whether two lists of types are written the same. -/
def decEqAll : (left right : List Ty) → Decidable (left = right)
  | [], [] => isTrue rfl
  | [], _ :: _ => isFalse (by simp)
  | _ :: _, [] => isFalse (by simp)
  | left :: lefts, right :: rights =>
    match decEq left right, decEqAll lefts rights with
    | isTrue sameHead, isTrue sameTail => isTrue (by rw [sameHead, sameTail])
    | isFalse differs, _ => isFalse fun same => differs (List.cons.inj same).1
    | _, isFalse differs => isFalse fun same => differs (List.cons.inj same).2

end

instance : DecidableEq Ty := decEq

mutual

/-- Replaces parameters in every width and folds the widths; type variables stay. -/
def substitute (bindings : Bindings Static.Expr) : Ty → Ty
  | .unit => .unit
  | .bit => .bit
  | .bits width => .bits (width.substitute bindings).simplify
  | .product members => .product (substituteAll bindings members)
  | .var id => .var id

/-- Replaces parameters in every width of every type. -/
def substituteAll (bindings : Bindings Static.Expr) : List Ty → List Ty
  | [] => []
  | ty :: rest => ty.substitute bindings :: substituteAll bindings rest

end

mutual

/-- How deep products are nested in the type as it is written. -/
def depth : Ty → Nat
  | .product members => depthAll members + 1
  | .unit | .bit | .bits _ | .var _ => 0

/-- The depth of the deepest of the types. -/
def depthAll : List Ty → Nat
  | [] => 0
  | ty :: rest => max ty.depth (depthAll rest)

end

/-- The type of something with these outputs: a single output stands for itself, any other number
of them is a product. -/
def ofOutputs : List Ty → Ty
  | [ty] => ty
  | tys => .product tys

mutual

/-- The text of the type. -/
def render : Ty → String
  | .unit => "()"
  | .bit => "bit"
  | .bits width => "bit[" ++ width.render ++ "]"
  | .product members => Text.appendSeparated "(" ", " (renderAll members) ++ ")"
  | .var id => "'t" ++ id.index.repr

/-- The texts of the types. -/
def renderAll : List Ty → List String
  | [] => []
  | ty :: rest => ty.render :: renderAll rest

end

end Ty

end CircuitWidths
