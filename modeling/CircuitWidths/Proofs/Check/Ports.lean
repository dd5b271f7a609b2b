import CircuitWidths.Check.Program
import CircuitWidths.Proofs.Check.Bodies
import CircuitWidths.Proofs.Supply

/-!
# What happens around the body of a node

A port gets a new type variable, which is linked to the declared type at once.  So the wires of
the ports always resolve to the declared types, and the scope around the body of a node is the
one of the rules (`introduce_ends`).  After the body the types in it are resolved and the pending
conditions are solved (`conclude_ends`).
-/

namespace CircuitWidths

open CheckM Circuit TypeStore

variable {checker next : Checker} {store : TypeStore} {id : TyVar} {ty : Ty}

namespace TypeStore

private theorem representative_unlinked (unlinked : store.Unlinked id) :
    representative (.var id) store = .ok (.var id) store := by
  have found : link id store = .ok none store := by rw [link, unlinked]
  show representativeWithin (store.size + 1) (.var id) store = _
  rw [representativeWithin, bind_of_ok found]
  rfl

private theorem representative_flat (flat : ty.Flat) : representative ty store = .ok ty store := by
  cases flat <;> rfl

private theorem occurs_flat (flat : ty.Flat) : occurs id ty store = .ok false store := by
  cases flat <;> rfl

private theorem Occurs.not_flat (occurs : store.Occurs id ty) : ¬ ty.Flat := by
  intro flat
  cases occurs with
  | here leads => exact flat.ne_var id (leads.unique (.concrete flat.ne_var) ▸ rfl)
  | inside leads => exact flat.ne_product _ ((Leads.concrete flat.ne_var).unique leads)

end TypeStore

namespace Unification

private theorem onTypes_of_run {α : Type} {step : StoreM α} {state : Unification} {value : α}
    {types : TypeStore} (run : step state.types = .ok value types) :
    onTypes step state = .ok value { state with types := types } := by
  rw [onTypes, run]

/-- Unifying a variable without a link with a bit or a bus only links the variable. -/
theorem unify_unlinked_flat (state : Unification) (unlinked : state.types.Unlinked id)
    (flat : ty.Flat) : Ends (unify (.var id) ty) state
      (fun _ next => ∃ types, next = { state with types := types } ∧
        Assigned state.types id ty types) Never := by
  refine .after rfl ?_
  refine .after (onTypes_of_run (representative_unlinked unlinked)) ?_
  refine .after (onTypes_of_run (representative_flat flat)) ?_
  have linked : Ends (bindVar id ty) state (fun _ next => ∃ types,
      next = { state with types := types } ∧ Assigned state.types id ty types) Never := by
    obtain ⟨_, types, run, assigned⟩ := (assign_ends unlinked).exists_ok
    exact .after (onTypes_of_run (occurs_flat flat))
      (.of_ok (onTypes_of_run run) ⟨types, rfl, assigned⟩)
  cases flat with
  | bit => exact linked
  | bits width => exact linked

end Unification

/-- The wire of a port leads to the type that is declared for it. -/
structure Circuit.Port.WiredAs (store : TypeStore) (port : Port) (wire : Typed.Wire) : Prop where
  id : wire.id = port.id
  leads : store.Leads wire.ty port.declared.toTy

/-- A declared port stays so while the store grows. -/
theorem Circuit.Port.WiredAs.later {grown : TypeStore} {port : Port} {wire : Typed.Wire}
    (precedes : store.Precedes grown) (wired : port.WiredAs store wire) :
    port.WiredAs grown wire :=
  ⟨wired.id, precedes.leads port.declared.toTy_flat.ne_var wired.leads⟩

/-- Declaring a port makes one variable and links it. -/
theorem Circuit.Port.declare_ends (port : Port) (checker : Checker) :
    Ends port.declare checker (fun wire next =>
      wire = ⟨port.id, .var ⟨checker.types.links.owner, checker.types.size⟩⟩ ∧
        ∃ types, next = { checker with types := types } ∧
          Assigned checker.types.fresh.2 ⟨checker.types.links.owner, checker.types.size⟩
            port.declared.toTy types) Never := by
  have unlinked : checker.types.fresh.2.Unlinked
      ⟨checker.types.links.owner, checker.types.size⟩ := by
    rw [Unlinked, checker.types.fresh_spec.2.2.2, if_pos rfl]
  let fresh : Unification := { checker.toUnification with types := checker.types.fresh.2 }
  have linked := Unification.unify_unlinked_flat fresh unlinked port.declared.toTy_flat
  obtain ⟨_, _, run, types, rfl, assigned⟩ := linked.exists_ok
  refine .after (rfl : freshTy checker = .ok _ { checker with toUnification := fresh }) ?_
  exact .after (unifyAt_run run) (.pure ⟨rfl, types, rfl, assigned⟩)

/-- The next variables that the store makes stand for these ground types. -/
def Model.SuppliesTypes (model : Model) (store : TypeStore) (tys : List GroundTy) : Prop :=
  Supplies (fun index => model.grounds ⟨store.links.owner, index⟩) store.size tys

/-- Ports were declared: each has a new variable that leads to its declared type. -/
structure PortsDeclared (store : TypeStore) (ports : List Port) (wires : List Typed.Wire)
    (types : TypeStore) : Prop where
  wellFormed : types.WellFormed
  precedes : store.Precedes types
  wired : List.Forall₂ (Port.WiredAs types) ports wires
  size : types.size = store.size + ports.length
  respects : ∀ model : Model, model.Respects store →
    model.SuppliesTypes store (ports.map fun port => port.declared.toTy.denote model) →
      model.Respects types

private theorem PortsDeclared.cons {port : Port} {ports : List Port} {wires : List Typed.Wire}
    {middle types : TypeStore}
    (assigned : Assigned store.fresh.2 ⟨store.links.owner, store.size⟩ port.declared.toTy middle)
    (rest : PortsDeclared middle ports wires types) :
    PortsDeclared store (port :: ports)
      (⟨port.id, .var ⟨store.links.owner, store.size⟩⟩ :: wires) types := by
  have flat := port.declared.toTy_flat
  have precedes := store.fresh_precedes.trans assigned.precedes
  have size : middle.size = store.size + 1 := assigned.size.trans store.fresh_spec.2.2.1
  refine ⟨rest.wellFormed, precedes.trans rest.precedes, .cons ⟨rfl, ?_⟩ rest.wired, ?_, ?_⟩
  · exact rest.precedes.leads flat.ne_var
      (.follow (assigned.linked_iff.mpr (.inl ⟨rfl, rfl⟩)) (.concrete flat.ne_var))
  · rw [rest.size, size, List.length_cons]
    omega
  · intro model respects supplies
    obtain ⟨head, tail⟩ := supplies
    refine rest.respects model
      (assigned.respects_iff.mpr ⟨fresh_respects respects, head⟩) ?_
    rw [Model.SuppliesTypes, precedes.owner, size]
    exact tail

private theorem declarePorts_ends (ports : List Port) :
    ∀ checker : Checker, checker.types.WellFormed →
    Ends (ports.mapM Port.declare) checker (fun wires next => ∃ types,
      next = { checker with types := types } ∧
        PortsDeclared checker.types ports wires types) Never := by
  induction ports with
  | nil =>
      intro checker wellFormed
      exact .pure ⟨_, rfl, wellFormed, .refl _, .nil, rfl, fun _ respects _ => respects⟩
  | cons port ports ih =>
      intro checker wellFormed
      rw [List.mapM_cons]
      obtain ⟨_, _, headRun, rfl, middle, rfl, assigned⟩ := (port.declare_ends checker).exists_ok
      refine .after headRun ?_
      have middleWellFormed : middle.WellFormed := assigned.wellFormed (fresh_wellFormed wellFormed)
        (.of_closed port.declared.toTy_flat.closed)
        fun occurs => occurs.not_flat port.declared.toTy_flat
      refine .bind (ih { checker with types := middle } middleWellFormed) ?_
      intro wires last ended
      obtain ⟨types, rfl, declared⟩ := ended
      exact .pure ⟨types, rfl, .cons assigned declared⟩

/-- The wire of a port with its declared type. -/
def Circuit.Port.wire (port : Port) : Typed.Wire := ⟨port.id, port.declared.toTy⟩

/-- The wires of ports resolve to the declared types. -/
theorem resolvePorts_run {ports : List Port} {wires : List Typed.Wire}
    (wired : List.Forall₂ (Port.WiredAs store) ports wires) :
    ∀ checker : Checker, checker.types.WellFormed → store.Precedes checker.types →
      ∃ types, (wires.mapM fun wire => onTypes wire.resolve) checker =
          .ok (ports.map Port.wire) { checker with types := types } ∧
        Shortened checker.types types := by
  induction wired with
  | nil => exact fun _ _ _ => ⟨_, rfl, .refl _⟩
  | @cons port wire ports wires head _ ih =>
      intro checker wellFormed precedes
      have here := head.later precedes
      have flat := port.declared.toTy_flat
      have resolveEnds : Ends wire.resolve checker.types (fun resolved next =>
          Shortened checker.types next ∧ resolved = port.wire) Never := by
        refine .bind (TypeStore.resolve_ends wellFormed (here.leads.start_over flat))
          fun resolved _ ⟨shortened, resolves⟩ => .pure ⟨shortened, ?_⟩
        rw [resolves.eq_of_leads here.leads flat.ne_product, here.id, Port.wire]
      obtain ⟨_, middle, headRun, headShortened, rfl⟩ := onTypes_run checker resolveEnds
      obtain ⟨types, tailRun, tailShortened⟩ := ih { checker with types := middle }
        (headShortened.wellFormed wellFormed) (precedes.trans headShortened.precedes)
      refine ⟨types, ?_, headShortened.trans tailShortened⟩
      rw [List.mapM_cons, bind_of_ok headRun, bind_of_ok tailRun]
      rfl

private theorem Env.Declares.insertAll {pairs declared : List (String × Ty)}
    (same : List.Forall₂ (Env.DeclaredAs store) pairs declared) :
    ∀ {env : Env} {scope : Bindings Ty}, env.Declares store scope →
      Env.Declares store (env.insertAll pairs) (scope.insertAll declared) := by
  induction same with
  | nil => exact fun declares => declares
  | cons head _ ih => exact fun declares => ih (.cons head declares)

/-- The ports put the scope of the rules around the body. -/
theorem Circuit.portEnv_declares {node : Node} {inputs outputs : List Typed.Wire}
    (inputsWired : List.Forall₂ (Port.WiredAs store) node.inputs inputs)
    (outputsWired : List.Forall₂ (Port.WiredAs store) node.outputs outputs) :
    (portEnv inputs outputs).Declares store node.portScope := by
  refine Env.Declares.insertAll ?_ .nil
  rw [List.forall₂_map_left_iff, List.forall₂_map_right_iff]
  refine (List.rel_append inputsWired outputsWired).flip.imp fun wire port wired => ?_
  exact ⟨congrArg Ident.name wired.id, wired.leads, port.declared.toTy_flat⟩

namespace Circuit.Node

/-- The part of checking a node before its body: ports are declared, and what is known of the node
is registered. -/
def introduce (node : Node) : CheckM (List Typed.Wire × List Typed.Wire) := do
  let inputs ← node.inputs.mapM Port.declare
  let outputs ← node.outputs.mapM Port.declare
  let knownInputs ← inputs.mapM fun wire => onTypes wire.resolve
  let knownOutputs ← outputs.mapM fun wire => onTypes wire.resolve
  register node.id.name (node.signature knownInputs knownOutputs [])
  pure (inputs, outputs)

/-- The part of checking a node after its body. -/
def conclude (node : Node) (inputs outputs : List Typed.Wire) (body : Typed.Block) :
    CheckM Typed.Node := do
  let typedBody ← onTypes body.resolve
  let typedInputs ← inputs.mapM fun wire => onTypes wire.resolve
  let typedOutputs ← outputs.mapM fun wire => onTypes wire.resolve
  let constraints ← node.solvePending
  let signature := node.signature typedInputs typedOutputs constraints
  register node.id.name signature
  pure ⟨node.span, node.id, node.params, typedInputs, typedOutputs, typedBody, signature⟩

/-- The check of a definition in three phases: before, in and after the body. -/
theorem checkDefinition_eq (node : Node) :
    node.checkDefinition = (do
      let ports ← node.introduce
      let body ← (portEnv ports.1 ports.2).checkBlock node.body
      node.conclude ports.1 ports.2 body) := by
  simp only [checkDefinition, introduce, conclude, bind_assoc, pure_bind]

/-- A signature has the declared types of the ports. -/
theorem signature_ports (node : Node) (constraints : List Static.Expr) :
    node.signature (node.inputs.map Port.wire) (node.outputs.map Port.wire) constraints =
      { node.provisional with constraints := constraints } := by
  simp [signature, provisional, Function.comp_def, Port.wire]

/-- The ports of the node are in scope, and the node is known. -/
structure Introduced (node : Node) (store : TypeStore) (inputs outputs : List Typed.Wire)
    (types : TypeStore) : Prop where
  wellFormed : types.WellFormed
  precedes : store.Precedes types
  inputsWired : List.Forall₂ (Port.WiredAs types) node.inputs inputs
  outputsWired : List.Forall₂ (Port.WiredAs types) node.outputs outputs
  size : types.size = store.size + (node.inputs ++ node.outputs).length
  respects : ∀ model : Model, model.Respects store →
    model.SuppliesTypes store ((node.inputs ++ node.outputs).map fun port =>
      port.declared.toTy.denote model) → model.Respects types

/-- Introducing a node always succeeds; it declares the ports and makes the node known to its
body. -/
theorem introduce_ends (node : Node) (wellFormed : checker.types.WellFormed) :
    Ends node.introduce checker (fun ports next => ∃ types,
      next = { checker with types := types, catalog := node.callable checker.catalog } ∧
        node.Introduced checker.types ports.1 ports.2 types) Never := by
  refine .bind (declarePorts_ends node.inputs checker wellFormed) ?_
  intro inputs afterInputs inputsEnded
  obtain ⟨first, rfl, inputsDeclared⟩ := inputsEnded
  refine .bind (declarePorts_ends node.outputs _ inputsDeclared.wellFormed) ?_
  intro outputs afterOutputs outputsEnded
  obtain ⟨second, rfl, outputsDeclared⟩ := outputsEnded
  have inputsWired := inputsDeclared.wired.imp fun _ _ wired => wired.later outputsDeclared.precedes
  obtain ⟨third, inputsRun, inputsShortened⟩ := resolvePorts_run inputsWired
    { checker with types := second } outputsDeclared.wellFormed (.refl _)
  have thirdWellFormed := inputsShortened.wellFormed outputsDeclared.wellFormed
  obtain ⟨types, outputsRun, outputsShortened⟩ := resolvePorts_run outputsDeclared.wired
    { checker with types := third } thirdWellFormed inputsShortened.precedes
  have shortened := inputsShortened.trans outputsShortened
  refine .after inputsRun (.after outputsRun ?_)
  rw [signature_ports]
  refine .after rfl (.pure ⟨types, rfl, ?_⟩)
  refine ⟨outputsShortened.wellFormed thirdWellFormed,
    (inputsDeclared.precedes.trans outputsDeclared.precedes).trans shortened.precedes,
    inputsWired.imp fun _ _ wired => wired.later shortened.precedes,
    outputsDeclared.wired.imp fun _ _ wired => wired.later shortened.precedes, ?_, ?_⟩
  · rw [shortened.size, outputsDeclared.size, inputsDeclared.size, List.length_append]
    omega
  · intro model respects supplies
    rw [Model.SuppliesTypes, List.map_append, supplies_append, List.length_map] at supplies
    refine shortened.respects_iff.mpr (outputsDeclared.respects model
      (inputsDeclared.respects model respects supplies.1) ?_)
    rw [Model.SuppliesTypes, inputsDeclared.precedes.owner, inputsDeclared.size]
    exact supplies.2

/-- The check of the node ended: its conditions are solved and its body is resolved. -/
structure Concluded (node : Node) (body : Typed.Block) (checker : Checker) (typed : Typed.Node)
    (next : Checker) : Prop where
  solved : Static.solve node.paramNames checker.constraints.pending =
    .ok typed.signature.constraints
  signature : typed.signature =
    { node.provisional with constraints := typed.signature.constraints }
  shape : typed = ⟨node.span, node.id, node.params, node.inputs.map Port.wire,
    node.outputs.map Port.wire, typed.body, typed.signature⟩
  resolved : ∃ types, body.resolve checker.types = .ok typed.body types
  refined : ∀ model : Model, model.Respects checker.types → body.RefinedBy model typed.body
  types : Shortened checker.types next.types
  catalog : next.catalog = checker.catalog.register node.id.name typed.signature
  drained : next.constraints.pending = []
  nextWidth : next.nextWidth = checker.nextWidth
  settings : next.settings = checker.settings

/-- The pending conditions of the node contradict each other. -/
structure Contradicts (node : Node) (checker : Checker) (stop : Stop) (next : Checker) : Prop where
  solved : ∃ contradiction,
    Static.solve node.paramNames checker.constraints.pending = .error contradiction ∧
      stop = .rejected ⟨node.span, .contradiction contradiction.condition⟩
  types : Shortened checker.types next.types
  catalog : next.catalog = checker.catalog

/-- Concluding a node succeeds, or its pending conditions contradict each other. -/
theorem conclude_ends (node : Node) {inputs outputs : List Typed.Wire} {body : Typed.Block}
    (wellFormed : checker.types.WellFormed) (bodyOver : body.Over checker.types)
    (inputsWired : List.Forall₂ (Port.WiredAs checker.types) node.inputs inputs)
    (outputsWired : List.Forall₂ (Port.WiredAs checker.types) node.outputs outputs) :
    Ends (node.conclude inputs outputs body) checker (node.Concluded body checker)
      (node.Contradicts checker) := by
  obtain ⟨typedBody, first, resolved, bodyShortened, refined⟩ :=
    (Typed.Block.resolve_ends wellFormed bodyOver (.refl _)).exists_ok
  have bodyRun : onTypes body.resolve checker = .ok typedBody { checker with types := first } := by
    rw [onTypes, resolved]
  have firstWellFormed := bodyShortened.wellFormed wellFormed
  obtain ⟨second, inputsRun, inputsShortened⟩ := resolvePorts_run inputsWired
    { checker with types := first } firstWellFormed bodyShortened.precedes
  have secondWellFormed := inputsShortened.wellFormed firstWellFormed
  have soFar := bodyShortened.trans inputsShortened
  obtain ⟨types, outputsRun, outputsShortened⟩ := resolvePorts_run outputsWired
    { checker with types := second } secondWellFormed soFar.precedes
  have shortened := soFar.trans outputsShortened
  refine .after bodyRun (.after inputsRun (.after outputsRun ?_))
  have drained : drain { checker with types := types } = .ok checker.constraints.pending
      { checker with types := types, constraints := checker.constraints.drain.2 } := rfl
  rw [solvePending, bind_assoc]
  refine .after drained ?_
  cases solved : Static.solve node.paramNames checker.constraints.pending with
  | ok constraints =>
      refine .after rfl ?_
      dsimp only
      rw [signature_ports]
      exact .after rfl
        (.pure ⟨solved, rfl, rfl, ⟨first, resolved⟩, refined, shortened, rfl, rfl, rfl, rfl⟩)
  | error contradiction =>
      exact .of_error rfl ⟨⟨contradiction, solved, rfl⟩, shortened, rfl⟩

end Circuit.Node

end CircuitWidths
