import CircuitWidths.Constraint.Pending
import CircuitWidths.Ty.Store

/-!
# Unification

Two types are made equal by linking variables.  Widths are not compared: that two widths are
equal becomes a pending constraint, and a single bit may stand for a bus of width one.
-/

namespace CircuitWidths

/-- The links and the pending constraints that unification adds to. -/
structure Unification where
  types : TypeStore
  constraints : Constraints

/-- Ways in which checking would go wrong: a type store is misused, or of two lists that are gone
through together one ends before the other. -/
inductive CheckFault
  | misuse (fault : TypeFault)
  | unevenLists
  deriving DecidableEq, Repr

/-- Why two types can not be made equal. -/
inductive UnifyError
  | mismatch
  | resultArity (found expected : Nat)
  | fault (fault : CheckFault)
  deriving DecidableEq, Repr

/-- A step of unification, which keeps what it has done also when it fails. -/
abbrev UnifyM := EStateM UnifyError Unification

namespace Unification

/-- Runs a step on the type store. -/
def onTypes {α : Type} (step : StoreM α) : UnifyM α := fun state =>
  match step state.types with
  | .ok value types => .ok value { state with types := types }
  | .error fault types => .error (.fault (.misuse fault)) { state with types := types }

/-- Records that two widths have to be equal. -/
def equate (left right : Static.Expr) : UnifyM Unit :=
  modify fun state => { state with constraints := state.constraints.emitEqual left right }

/-- Links a variable to a type in which it does not occur. -/
def bindVar (id : TyVar) (ty : Ty) : UnifyM Unit := do
  match ← onTypes (TypeStore.occurs id ty) with
  | true => throw .mismatch
  | false => onTypes (TypeStore.assign id ty)

/-- Makes the members of two lists equal in order. -/
def unifyPairs (unifyPair : Ty → Ty → UnifyM Unit) : List Ty → List Ty → UnifyM Unit
  | [], [] => pure ()
  | left :: lefts, right :: rights => do
    unifyPair left right
    unifyPairs unifyPair lefts rights
  | _, _ => throw (.fault .unevenLists)

/-- Makes two types equal, going at most `limit` levels deep.  Members of products are made equal
in order; of two variables the expected one is linked. -/
def unifyWithin : Nat → Ty → Ty → UnifyM Unit
  | 0, _, _ => throw (.fault (.misuse .cyclicLinks))
  | limit + 1, found, expected => do
    let foundHead ← onTypes (TypeStore.representative found)
    let expectedHead ← onTypes (TypeStore.representative expected)
    match foundHead, expectedHead with
    | .var left, .var right =>
      if left = right then pure () else bindVar right (.var left)
    | ty, .var id => bindVar id ty
    | .var id, ty => bindVar id ty
    | .unit, .unit => pure ()
    | .bit, .bit => pure ()
    | .bit, .bits width => equate width (.int 1)
    | .bits width, .bit => equate width (.int 1)
    | .bits left, .bits right => equate left right
    | .product lefts, .product rights =>
      if lefts.length = rights.length then
        unifyPairs (unifyWithin limit) lefts rights
      else
        throw (.resultArity lefts.length rights.length)
    | _, _ => throw .mismatch

/-- Makes the found type and the expected type equal. -/
def unify (found expected : Ty) : UnifyM Unit := do
  let state ← get
  unifyWithin (state.types.unfoldLimit [found, expected]) found expected

end Unification

end CircuitWidths
