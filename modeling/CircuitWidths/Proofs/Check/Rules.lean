import CircuitWidths.Proofs.Bindings
import CircuitWidths.Proofs.Related
import CircuitWidths.Proofs.Ty.Ground
import CircuitWidths.Typed.Node

/-!
# The rules of widths

These are the rules that a circuit has to obey when its static variables have values: which ground
types operators and calls take and give, and when expressions, equations and bodies are well typed.
They mention neither type variables nor generated widths, and say nothing about how types are
found.

`Circuit.Block.WellTyped` is about a body as it is written, for which types of its wires have to
exist.  `Circuit.Block.Elaborates` is about a body together with its typed form, in which the types
of all wires and expressions are given and every part has to obey its rule.
-/

namespace CircuitWidths

open Static (Reading Valuation AllHold)

/-- The expression is well kinded, of this kind. -/
def Static.Expr.HasKind (expr : Static.Expr) (kind : Static.Kind) : Prop := expr.kind = .ok kind

namespace Signature

/-- Arguments and result of a call fit the signature, and its conditions are met. -/
structure Admits (reading : Reading) (values : Valuation) (signature : Signature)
    (args : List GroundTy) (result : GroundTy) : Prop where
  inputs : args = signature.inputs.map (Ty.ground reading values)
  conditions : AllHold reading values signature.constraints
  output : result = (Ty.ofOutputs signature.outputs).ground reading values

end Signature

namespace Circuit

/-- The ground type of a constant. -/
def Literal.groundTy : Literal → GroundTy
  | .bit _ => .bits 1
  | .bits values => .bits values.length

/-- The types that an operator takes, and the type that it gives. -/
inductive Operator.Admits (reading : Reading) (values : Valuation) :
    Operator → List GroundTy → GroundTy → Prop
  | reg : Admits reading values .reg [.bits 1] (.bits 1)
  | not : Admits reading values .not [.bits 1] (.bits 1)
  | gate (gate : Gate) : Admits reading values (.gate gate) [.bits 1, .bits 1] (.bits 1)
  | mux : Admits reading values .mux [.bits 1, .bits 1, .bits 1] (.bits 1)
  | select {index : Static.Expr} {width : Int} (kind : index.HasKind .int)
      (inside : index.value reading values ≤ width) :
      Admits reading values (.select index) [.bits width] (.bits 1)
  | slice {first last : Static.Expr} {width : Int} (firstKind : first.HasKind .int)
      (lastKind : last.HasKind .int) (positive : 0 < first.value reading values)
      (inside : last.value reading values ≤ width) :
      Admits reading values (.slice first last) [.bits width]
        (.bits (last.value reading values - first.value reading values + 1))
  | concat (left right : Int) :
      Admits reading values .concat [.bits left, .bits right] (.bits (left + right))
  | rom {addressSize wordSize : Static.Expr} (addressKind : addressSize.HasKind .int)
      (wordKind : wordSize.HasKind .int) :
      Admits reading values (.rom addressSize wordSize)
        [.bits (addressSize.value reading values)] (.bits (wordSize.value reading values))
  | ram {addressSize wordSize : Static.Expr} (addressKind : addressSize.HasKind .int)
      (wordKind : wordSize.HasKind .int) :
      Admits reading values (.ram addressSize wordSize)
        [.bits (addressSize.value reading values), .bits 1,
          .bits (addressSize.value reading values), .bits (wordSize.value reading values)]
        (.bits (wordSize.value reading values))

/-- A wire without a declared type may have any. -/
def Local.Admits (reading : Reading) (values : Valuation) (wire : Local) (ty : GroundTy) : Prop :=
  ∀ declared, wire.declared = some declared → ty = declared.toTy.ground reading values

/-- The type of the left side of an equation. -/
inductive Pattern.HasType (scope : Bindings GroundTy) : Pattern → GroundTy → Prop
  | single {id : Ident} {ty : GroundTy} (bound : scope.get? id.name = some ty) :
      HasType scope (.single id) ty
  | tuple {ids : List Ident} {tys : List GroundTy}
      (bound : List.Forall₂ (fun id ty => scope.get? id.name = some ty) ids tys) :
      HasType scope (.tuple ids) (.product tys)

/-- The declared types in scope where a condition is known to hold: if it equates a parameter with
something, that takes the place of the parameter. -/
def refine (scope : Bindings Ty) (condition : Static.Expr) : Bindings Ty :=
  match condition.equation? with
  | some (name, value) => scope.map (Ty.substitute (Bindings.empty.insert name value))
  | none => scope

/-- The ground types in scope inside a body: declared types around it, and its own wires. -/
def innerScope (reading : Reading) (values : Valuation) (scope : Bindings Ty)
    (names : List String) (tys : List GroundTy) : Bindings GroundTy :=
  (scope.map (Ty.ground reading values)).insertAll (names.zip tys)

/-! ## Circuits as they are written -/

/-- An expression has a ground type, by the rules of operators and calls. -/
inductive Expr.HasType (reading : Reading) (values : Valuation) (catalog : Catalog)
    (scope : Bindings GroundTy) : Expr → GroundTy → Prop
  | const {span : Source.Span} {value : Literal} :
      HasType reading values catalog scope (.const span value) value.groundTy
  | wire {span : Source.Span} {id : Ident} {ty : GroundTy} (bound : scope.get? id.name = some ty) :
      HasType reading values catalog scope (.wire span id) ty
  | apply {span : Source.Span} {operator : Operator} {args : List Expr} {tys : List GroundTy}
      {ty : GroundTy} (typed : List.Forall₂ (HasType reading values catalog scope) args tys)
      (admits : operator.Admits reading values tys ty) :
      HasType reading values catalog scope (.apply span operator args) ty
  | call {span : Source.Span} {node : Ident} {statics : List Static.Expr} {args : List Expr}
      {tys : List GroundTy} {ty : GroundTy} {signature : Signature}
      (kinds : ∀ static ∈ statics, static.HasKind .int)
      (instantiated : catalog.instantiate node.name statics = .ok signature)
      (typed : List.Forall₂ (HasType reading values catalog scope) args tys)
      (admits : signature.Admits reading values tys ty) :
      HasType reading values catalog scope (.call span node statics args) ty

/-- Both sides of an equation have the same type. -/
def Equation.WellTyped (reading : Reading) (values : Valuation) (catalog : Catalog)
    (scope : Bindings GroundTy) (equation : Equation) : Prop :=
  ∃ ty, equation.pattern.HasType scope ty ∧
    equation.value.HasType reading values catalog scope ty

/-- There are types for the wires of every system with which its equations are well typed; both
sides of a choice count, the first under what its condition says. -/
inductive Block.WellTyped (reading : Reading) (values : Valuation) (catalog : Catalog) :
    Bindings Ty → Block → Prop
  | system {scope : Bindings Ty} {span : Source.Span} {locals : List Local}
      {equations : List Equation} (tys : List GroundTy)
      (annotated : List.Forall₂ (Local.Admits reading values) locals tys)
      (typed : ∀ equation ∈ equations, equation.WellTyped reading values catalog
        (innerScope reading values scope (locals.map (·.id.name)) tys)) :
      WellTyped reading values catalog scope (.system span locals equations)
  | choice {scope : Bindings Ty} {span : Source.Span} {condition : Static.Expr}
      {onTrue onFalse : Block} (kind : condition.HasKind .bool)
      (first : WellTyped reading values catalog (refine scope condition) onTrue)
      (second : WellTyped reading values catalog scope onFalse) :
      WellTyped reading values catalog scope (.choice span condition onTrue onFalse)

namespace Node

/-- The declared types of the ports, an output hiding an input of the same name. -/
def portScope (node : Node) : Bindings Ty :=
  .ofList ((node.inputs ++ node.outputs).map fun port => (port.id.name, port.declared.toTy))

/-- What is known about a node while its own body is checked. -/
def provisional (node : Node) : Signature :=
  ⟨node.inputs.map (·.declared.toTy), node.outputs.map (·.declared.toTy), node.paramNames, []⟩

/-- The signatures that the body of a node can call, its own among them. -/
def callable (node : Node) (catalog : Catalog) : Catalog :=
  catalog.register node.id.name node.provisional

/-- The body of the node is well typed where the static variables have these values. -/
def WellTyped (reading : Reading) (values : Valuation) (catalog : Catalog) (node : Node) : Prop :=
  node.body.WellTyped reading values (node.callable catalog) node.portScope

end Node

/-! ## Circuits with their typed forms -/

/-- Every part of the typed form of an expression obeys its rule. -/
inductive Expr.Elaborates (model : Model) (catalog : Catalog) (scope : Bindings GroundTy) :
    Expr → Typed.Expr → Prop
  | const {span : Source.Span} {value : Literal} {ty : Ty}
      (denotes : ty.denote model = value.groundTy) :
      Elaborates model catalog scope (.const span value) (.const span ty value)
  | wire {span : Source.Span} {id : Ident} {ty : Ty}
      (bound : scope.get? id.name = some (ty.denote model)) :
      Elaborates model catalog scope (.wire span id) (.wire span ty id.name)
  | apply {span : Source.Span} {operator : Operator} {args : List Expr}
      {typedArgs : List Typed.Expr} {ty : Ty}
      (typed : List.Forall₂ (Elaborates model catalog scope) args typedArgs)
      (admits : operator.Admits model.reading model.values
        (typedArgs.map fun arg => arg.ty.denote model) (ty.denote model)) :
      Elaborates model catalog scope (.apply span operator args)
        (.apply span ty operator typedArgs)
  | call {span : Source.Span} {node : Ident} {statics : List Static.Expr} {args : List Expr}
      {typedArgs : List Typed.Expr} {ty : Ty} {signature : Signature}
      (kinds : ∀ static ∈ statics, static.HasKind .int)
      (instantiated : catalog.instantiate node.name statics = .ok signature)
      (typed : List.Forall₂ (Elaborates model catalog scope) args typedArgs)
      (admits : signature.Admits model.reading model.values
        (typedArgs.map fun arg => arg.ty.denote model) (ty.denote model)) :
      Elaborates model catalog scope (.call span node statics args)
        (.call span ty node.name statics typedArgs)

/-- The value of an equation obeys its rules and has the type of the left side. -/
structure Equation.Elaborates (model : Model) (catalog : Catalog) (scope : Bindings GroundTy)
    (equation : Equation) (typed : Typed.Equation) : Prop where
  span : typed.span = equation.span
  pattern : typed.pattern = equation.pattern
  value : equation.value.Elaborates model catalog scope typed.value
  sides : equation.pattern.HasType scope (typed.value.ty.denote model)

/-- The typed form of a wire has its name and denotes what is declared for it. -/
structure Local.Elaborates (model : Model) (wire : Local) (typed : Typed.Wire) : Prop where
  id : typed.id = wire.id
  admits : wire.Admits model.reading model.values (typed.ty.denote model)

/-- Every part of the typed form of a body obeys its rule. -/
inductive Block.Elaborates (model : Model) (catalog : Catalog) :
    Bindings Ty → Block → Typed.Block → Prop
  | system {scope : Bindings Ty} {span : Source.Span} {locals : List Local}
      {equations : List Equation} {wires : List Typed.Wire} {typed : List Typed.Equation}
      (annotated : List.Forall₂ (Local.Elaborates model) locals wires)
      (all : List.Forall₂ (Equation.Elaborates model catalog
        (innerScope model.reading model.values scope (locals.map (·.id.name))
          (wires.map fun wire => wire.ty.denote model))) equations typed) :
      Elaborates model catalog scope (.system span locals equations) (.system span wires typed)
  | choice {scope : Bindings Ty} {span : Source.Span} {condition : Static.Expr}
      {onTrue onFalse : Block} {typedTrue typedFalse : Typed.Block}
      (kind : condition.HasKind .bool)
      (first : Elaborates model catalog (refine scope condition) onTrue typedTrue)
      (second : Elaborates model catalog scope onFalse typedFalse) :
      Elaborates model catalog scope (.choice span condition onTrue onFalse)
        (.choice span condition typedTrue typedFalse)

/-! ## A typed form shows that a circuit is well typed -/

/-- Induction over expressions in which the arguments of operators and calls may be used. -/
@[elab_as_elim, induction_eliminator]
theorem Expr.inductionOnArgs {motive : Expr → Prop}
    (const : ∀ span value, motive (.const span value)) (wire : ∀ span id, motive (.wire span id))
    (apply : ∀ span operator args, (∀ arg ∈ args, motive arg) →
      motive (.apply span operator args))
    (call : ∀ span node statics args, (∀ arg ∈ args, motive arg) →
      motive (.call span node statics args)) (expr : Expr) : motive expr := by
  have none : ∀ arg ∈ ([] : List Expr), motive arg := by
    intro arg member
    cases member
  have more : ∀ head tail, motive head → (∀ arg ∈ tail, motive arg) →
      ∀ arg ∈ head :: tail, motive arg :=
    fun _ _ headHolds tailHolds => List.forall_mem_cons.mpr ⟨headHolds, tailHolds⟩
  exact @Expr.rec motive (fun args => ∀ arg ∈ args, motive arg) const wire apply call
    none more expr

variable {model : Model} {catalog : Catalog}

private theorem Expr.Elaborates.hasType {scope : Bindings GroundTy} {expr : Expr} :
    ∀ typed : Typed.Expr, expr.Elaborates model catalog scope typed →
      expr.HasType model.reading model.values catalog scope (typed.ty.denote model) := by
  induction expr with
  | const span value =>
      intro typed elaborates
      cases elaborates with
      | const denotes => exact denotes ▸ .const
  | wire span id =>
      intro typed elaborates
      cases elaborates with
      | wire bound => exact .wire bound
  | apply span operator args ih =>
      intro typed elaborates
      cases elaborates with
      | apply typed admits =>
          have argsTyped := List.forall₂_map_right_iff.mpr (forall₂_imp_of_mem typed ih)
          exact .apply argsTyped admits
  | call span node statics args ih =>
      intro typed elaborates
      cases elaborates with
      | call kinds instantiated typed admits =>
          have argsTyped := List.forall₂_map_right_iff.mpr (forall₂_imp_of_mem typed ih)
          exact .call kinds instantiated argsTyped admits

/-- A body that has a typed form in a model is well typed there. -/
theorem Block.Elaborates.wellTyped {scope : Bindings Ty} {block : Block} {typed : Typed.Block}
    (elaborates : block.Elaborates model catalog scope typed) :
    block.WellTyped model.reading model.values catalog scope := by
  induction elaborates with
  | system annotated all =>
      refine .system _ (List.forall₂_map_right_iff.mpr
        (annotated.imp fun _ _ wire => wire.admits)) fun equation inside => ?_
      obtain ⟨typed, elaborates⟩ := forall₂_exists_right all inside
      exact ⟨_, elaborates.sides, elaborates.value.hasType typed.value⟩
  | choice kind _ _ first second => exact .choice kind first second

end Circuit

end CircuitWidths
