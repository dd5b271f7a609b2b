import CircuitWidths.Circuit.Node
import CircuitWidths.Signature
import Mathlib.Data.List.Basic

/-!
# Calls in a circuit

Which nodes a body calls at which static arguments, and what the signature of the called node
demands at these arguments.
-/

namespace CircuitWidths

namespace Circuit

/-- A node that is called, and its static arguments. -/
structure Call where
  node : String
  statics : List Static.Expr
  deriving DecidableEq, Repr

namespace Expr

mutual

/-- The calls in an expression. -/
def calls : Expr → List Call
  | .const _ _ | .wire _ _ => []
  | .apply _ _ args => callsAll args
  | .call _ node statics args => ⟨node.name, statics⟩ :: callsAll args

/-- The calls in the expressions. -/
def callsAll : List Expr → List Call
  | [] => []
  | expr :: rest => expr.calls ++ callsAll rest

end

/-- The calls in a list of expressions are those in its members. -/
theorem mem_callsAll {call : Call} {exprs : List Expr} :
    call ∈ callsAll exprs ↔ ∃ expr ∈ exprs, call ∈ expr.calls := by
  induction exprs with
  | nil => simp [callsAll]
  | cons expr rest ih => simp [callsAll, ih]

end Expr

/-- The calls in a body, in both sides of every choice. -/
def Block.calls : Block → List Call
  | .system _ _ equations => equations.flatMap (·.value.calls)
  | .choice _ _ onTrue onFalse => onTrue.calls ++ onFalse.calls

end Circuit

namespace Catalog

/-- The conditions that a call adds to those of its caller. -/
def demands (catalog : Catalog) (call : Circuit.Call) : List Static.Expr :=
  match catalog.instantiate call.node call.statics with
  | .ok signature => signature.constraints
  | .error _ => []

/-- All known signatures have the property. -/
def Each (property : Signature → Prop) (catalog : Catalog) : Prop :=
  ∀ name signature, catalog.get? name = some signature → property signature

/-- The conditions of all the calls are pending. -/
def Demanded (catalog : Catalog) (calls : List Circuit.Call) (pending : List Static.Expr) : Prop :=
  ∀ call ∈ calls, ∀ condition ∈ catalog.demands call, condition ∈ pending

variable {catalog : Catalog} {calls others : List Circuit.Call} {call : Circuit.Call}
  {pending : List Static.Expr}

/-- Only the name that is registered is looked up with another result. -/
theorem get?_register (name other : String) (signature : Signature) :
    (catalog.register name signature).get? other =
      if other = name then some signature else catalog.get? other :=
  Bindings.get?_insert catalog.nodes name other signature

/-- A property of all known signatures is kept if the new signature has it. -/
theorem Each.register {property : Signature → Prop} {name : String} {signature : Signature}
    (each : catalog.Each property) (new : property signature) :
    (catalog.register name signature).Each property := by
  intro other found known
  rw [get?_register] at known
  by_cases same : other = name
  · rw [if_pos same] at known
    cases known
    exact new
  · rw [if_neg same] at known
    exact each other found known

/-- What a call finds is a known signature with the arguments put in for its parameters. -/
theorem exists_of_instantiate {name : String} {args : List Static.Expr} {signature : Signature}
    (instantiated : catalog.instantiate name args = .ok signature) :
    ∃ original, catalog.get? name = some original ∧ args.length = original.params.length ∧
      signature = original.substitute (.ofList (original.params.zip args)) := by
  unfold instantiate at instantiated
  split at instantiated
  · cases instantiated
  · rename_i original known
    split at instantiated
    · rename_i length
      cases instantiated
      exact ⟨original, known, length, rfl⟩
    · cases instantiated

/-- A call of a known node with the right number of arguments finds its signature. -/
theorem instantiate_eq_ok {name : String} {args : List Static.Expr} {signature : Signature}
    (known : catalog.get? name = some signature)
    (arity : args.length = signature.params.length) :
    catalog.instantiate name args =
      .ok (signature.substitute (.ofList (signature.params.zip args))) := by
  rw [instantiate, known]
  exact if_pos arity

/-- What a call asks for are the conditions of the signature it finds. -/
theorem demands_eq {signature : Signature}
    (instantiated : catalog.instantiate call.node call.statics = .ok signature) :
    catalog.demands call = signature.constraints := by
  rw [demands, instantiated]

/-- What a call of a known node asks for are its conditions with the arguments put in. -/
theorem demands_of_known {signature : Signature}
    (known : catalog.get? call.node = some signature)
    (arity : call.statics.length = signature.params.length) :
    catalog.demands call =
      (signature.substitute (.ofList (signature.params.zip call.statics))).constraints :=
  demands_eq (instantiate_eq_ok known arity)

@[simp] theorem demanded_nil : catalog.Demanded [] pending := by
  intro call inside
  cases inside

@[simp] theorem demanded_cons : catalog.Demanded (call :: calls) pending ↔
    (∀ condition ∈ catalog.demands call, condition ∈ pending) ∧
      catalog.Demanded calls pending := by
  simp [Demanded]

@[simp] theorem demanded_append : catalog.Demanded (calls ++ others) pending ↔
    catalog.Demanded calls pending ∧ catalog.Demanded others pending := by
  simp [Demanded, or_imp, forall_and]

/-- Conditions that are pending stay so when others are added behind them. -/
theorem Demanded.later (demanded : catalog.Demanded calls pending) (more : List Static.Expr) :
    catalog.Demanded calls (pending ++ more) :=
  fun call inside condition asked => List.mem_append_left _ (demanded call inside condition asked)

end Catalog

end CircuitWidths
