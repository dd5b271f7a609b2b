import CircuitWidths.Ty.Basic

/-!
# Signatures of nodes

What a node needs and gives: the types of its inputs and outputs over its static parameters, and
the conditions that the parameters have to meet.  The catalog keeps the signature of every node
that may be called.
-/

namespace CircuitWidths

/-- The types of a node's ports, its static parameters, and the conditions on them. -/
structure Signature where
  inputs : List Ty
  outputs : List Ty
  params : List String
  constraints : List Static.Expr
  deriving DecidableEq, Repr

namespace Signature

/-- Replaces parameters in the port types, whose widths are folded, and in the conditions, which
stay as they are written. -/
def substitute (bindings : Bindings Static.Expr) (signature : Signature) : Signature :=
  { signature with
    inputs := Ty.substituteAll bindings signature.inputs
    outputs := Ty.substituteAll bindings signature.outputs
    constraints := signature.constraints.map (·.substitute bindings) }

/-- The text of the signature, without the parts for parameters and conditions that it does not
have. -/
def render (signature : Signature) : String :=
  let params :=
    if signature.params.isEmpty then "" else Text.appendSeparated "<" ", " signature.params ++ ">"
  let inputs := Text.appendSeparated "(" ", " (Ty.renderAll signature.inputs) ++ ")"
  let outputs := Text.appendSeparated " -> (" ", " (Ty.renderAll signature.outputs) ++ ")"
  let conditions :=
    if signature.constraints.isEmpty then ""
    else Text.appendSeparated " where " ", " (signature.constraints.map (·.render))
  params ++ inputs ++ outputs ++ conditions

end Signature

/-- The signatures of the nodes known by name. -/
structure Catalog where
  nodes : Bindings Signature

/-- Why a node can not be instantiated. -/
inductive InstantiationError
  | unboundNode
  | paramsArity (found expected : Nat)
  deriving DecidableEq, Repr

namespace Catalog

/-- No node is known. -/
def empty : Catalog := ⟨.empty⟩

/-- Makes a node known, in place of an earlier node of the same name. -/
def register (catalog : Catalog) (name : String) (signature : Signature) : Catalog :=
  ⟨catalog.nodes.insert name signature⟩

/-- The signature of a known node. -/
def get? (catalog : Catalog) (name : String) : Option Signature :=
  catalog.nodes.get? name

/-- The signature of a known node with its parameters replaced by the arguments, all at once. -/
def instantiate (catalog : Catalog) (name : String) (args : List Static.Expr) :
    Except InstantiationError Signature :=
  match catalog.get? name with
  | none => .error .unboundNode
  | some signature =>
    if args.length = signature.params.length then
      .ok (signature.substitute (.ofList (signature.params.zip args)))
    else
      .error (.paramsArity args.length signature.params.length)

end Catalog

end CircuitWidths
