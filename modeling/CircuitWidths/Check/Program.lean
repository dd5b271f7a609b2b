import CircuitWidths.Check.Body
import CircuitWidths.Constraint.Solve

/-!
# Nodes and programs

A node is known, with its port types, while its own body is checked, so it may call itself.  When
the body is accepted the constraints that it gathered are solved and become part of its
signature.  A rejected node is reported and stops the program.
-/

namespace CircuitWidths

open CheckM

/-- Why a node has no typed form: its rejection was reported, or something went wrong. -/
inductive NodeError
  | reported
  | fault (fault : CheckFault)
  deriving DecidableEq, Repr

namespace Circuit

/-- Gives a port a type variable that is equal to its declared type. -/
def Port.declare (port : Port) : CheckM Typed.Wire := do
  let ty ← freshTy
  unifyAt port.span ty port.declared.toTy
  pure ⟨port.id, ty⟩

/-- The wires in scope in the body of a node; an output hides an input of the same name. -/
def portEnv (inputs outputs : List Typed.Wire) : Env :=
  Bindings.ofList ((inputs ++ outputs).map fun wire => (wire.id.name, wire.ty))

namespace Node

/-- The signature of a node with the given ports and constraints. -/
def signature (node : Node) (inputs outputs : List Typed.Wire) (constraints : List Static.Expr) :
    Signature :=
  ⟨inputs.map (·.ty), outputs.map (·.ty), node.paramNames, constraints⟩

/-- Solves the pending constraints for everything but the parameters of the node. -/
def solvePending (node : Node) : CheckM (List Static.Expr) := do
  let pending ← drain
  match Static.solve node.paramNames pending with
  | .ok solved => pure solved
  | .error contradiction => reject node.span (.contradiction contradiction.condition)

/-- Checks the definition of a node and makes its signature known. -/
def checkDefinition (node : Node) : CheckM Typed.Node := do
  let inputs ← node.inputs.mapM Port.declare
  let outputs ← node.outputs.mapM Port.declare
  let knownInputs ← inputs.mapM fun wire => onTypes wire.resolve
  let knownOutputs ← outputs.mapM fun wire => onTypes wire.resolve
  register node.id.name (node.signature knownInputs knownOutputs [])
  let body ← (portEnv inputs outputs).checkBlock node.body
  let typedBody ← onTypes body.resolve
  let typedInputs ← inputs.mapM fun wire => onTypes wire.resolve
  let typedOutputs ← outputs.mapM fun wire => onTypes wire.resolve
  let constraints ← node.solvePending
  let signature := node.signature typedInputs typedOutputs constraints
  register node.id.name signature
  pure ⟨node.span, node.id, node.params, typedInputs, typedOutputs, typedBody, signature⟩

/-- Checks a node.  A rejection is reported and drops the constraints gathered so far. -/
def check (node : Node) : EStateM NodeError Checker Typed.Node := fun checker =>
  match node.checkDefinition checker with
  | .ok typed next => .ok typed next
  | .error (.rejected rejection) next =>
    .error .reported (next.dropConstraints.report (rejection.toDiagnostic node.id))
  | .error (.fault fault) next => .error (.fault fault) next

end Node

/-- Checks nodes in order, up to the first that is rejected. -/
def checkNodes (nodes : List Node) : EStateM NodeError Checker (List Typed.Node) :=
  nodes.mapM Node.check

/-- Checks a program from the beginning. -/
def checkProgram (settings : CheckSettings) (nodes : List Node) :
    EStateM.Result NodeError Checker (List Typed.Node) :=
  checkNodes nodes (Checker.start settings)

end Circuit

end CircuitWidths
