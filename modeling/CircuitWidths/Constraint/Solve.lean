import CircuitWidths.Static.Fold

/-!
# Solving constraints

The conditions of a node may mention variables that are not parameters of the node.  An equation
that gives the value of such a variable eliminates it: the equation is dropped and the value is
put into all other conditions.  What remains when nothing can be eliminated is the solved form.
-/

namespace CircuitWidths

namespace Static

/-- A condition that folds to false, as it stood before the step that showed it. -/
structure Contradiction where
  condition : Expr
  deriving DecidableEq, Repr

/-- Puts every condition through `step`, in order: true ones are dropped, and the first false
one stops with the condition that it came from. -/
def settle (step : Expr → Expr) : List Expr → Except Contradiction (List Expr)
  | [] => .ok []
  | condition :: rest =>
    match step condition with
    | .bool true => settle step rest
    | .bool false => .error ⟨condition⟩
    | settled => (settle step rest).map (settled :: ·)

/-- The value of a variable that can be put in its place everywhere. -/
structure Elimination where
  name : String
  value : Expr
  deriving DecidableEq, Repr

/-- The bindings that carry out the elimination. -/
def Elimination.bindings (elimination : Elimination) : Bindings Expr :=
  Bindings.empty.insert elimination.name elimination.value

/-- Reads an equation as the value of the variable on `side`, which must not be a parameter and
must not stand on the other side. -/
def solvedFor? (params : List String) (side other : Expr) : Option Elimination :=
  match side with
  | .var name =>
    if name ∈ params ∨ other.mentions name = true then none else some ⟨name, other⟩
  | _ => none

/-- The elimination that a condition allows; the left side of an equation is tried first. -/
def elimination? (params : List String) : Expr → Option Elimination
  | .binary .eq left right => (solvedFor? params left right).or (solvedFor? params right left)
  | _ => none

/-- The first condition that allows an elimination, taken out of the list. -/
def extract? (params : List String) : List Expr → Option (Elimination × List Expr)
  | [] => none
  | condition :: rest =>
    match elimination? params condition with
    | some elimination => some (elimination, rest)
    | none => (extract? params rest).map fun (elimination, others) =>
        (elimination, condition :: others)

/-- Puts the value of the eliminated variable into a condition and folds the result. -/
def Elimination.apply (elimination : Elimination) (condition : Expr) : Expr :=
  (condition.substitute elimination.bindings).simplify

/-- Carries out at most `rounds` eliminations, one after another. -/
def eliminate (params : List String) : Nat → List Expr → Except Contradiction (List Expr)
  | 0, conditions => .ok conditions
  | rounds + 1, conditions =>
    match extract? params conditions with
    | none => .ok conditions
    | some (elimination, rest) => do
      let settled ← settle elimination.apply rest
      eliminate params rounds settled

/-- The conditions in solved form.  Each elimination takes one condition away, so there are at
most as many rounds as conditions. -/
def solve (params : List String) (conditions : List Expr) :
    Except Contradiction (List Expr) := do
  let simplified ← settle Expr.simplify conditions
  eliminate params simplified.length simplified

end Static

end CircuitWidths
