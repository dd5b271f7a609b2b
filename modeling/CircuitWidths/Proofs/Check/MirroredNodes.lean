import CircuitWidths.Proofs.Check.MirroredBodies
import CircuitWidths.Proofs.Check.Soundness

/-!
# Nodes and programs are checked in step

From states that mirror each other the nodes of a program get typed forms that are alike, or the
checks of the same node are stopped, at the same place and for reasons that are alike
(`checkNodes_mirrored`).  For this, related pending conditions have to be solved alike.
-/

namespace CircuitWidths

open CheckM Circuit TypeStore

variable {mirror : Mirror} {checker partner : Checker} {store : TypeStore}

/-- Related pending conditions are solved to renamed conditions, or both are contradictory, and
nothing pending is related to nothing pending. -/
structure Mirror.Solves (mirror : Mirror) : Prop where
  solve : ∀ {constraints others : Constraints} {params : List String},
    mirror.pending constraints others → (∀ param ∈ params, mirror.names param param) →
      Static.Agree (Static.Contradiction.Renamed mirror.names) (Static.RenamedAll mirror.names)
        (Static.solve params constraints.pending) (Static.solve params others.pending)
  drain : ∀ {constraints others : Constraints}, mirror.pending constraints others →
    mirror.pending constraints.drain.2 others.drain.2

/-- What is written in the node, its parameters included, keeps its names, and its calls are of
known nodes. -/
structure Mirror.ReadsNode (mirror : Mirror) (node : Node) : Prop where
  reads : mirror.Reads node.statics node.body.calls
  params : ∀ param ∈ node.paramNames, mirror.names param param

/-! ## Typed forms -/

namespace Typed

variable {tys : Ty → Ty → Prop}

private theorem Expr.Like.isOver {expr : Typed.Expr}
    (owned : ∀ ty other, tys ty other → ty.Over store) :
    ∀ {other : Typed.Expr}, expr.Like tys other → expr.Over store := by
  induction expr using Expr.inductionOnArgs with
  | const span ty value =>
      intro other like
      cases like with
      | const types => exact .const (owned _ _ types)
  | wire span ty name =>
      intro other like
      cases like with
      | wire types => exact .wire (owned _ _ types)
  | apply span ty operator args ih =>
      intro other like
      cases like with
      | apply types each =>
          apply Expr.Over.apply (owned _ _ types)
          intro arg inside
          obtain ⟨_, argLike⟩ := forall₂_exists_right each inside
          exact ih arg inside argLike
  | call span ty node statics args ih =>
      intro other like
      cases like with
      | call types each =>
          apply Expr.Over.call (owned _ _ types)
          intro arg inside
          obtain ⟨_, argLike⟩ := forall₂_exists_right each inside
          exact ih arg inside argLike

/-- If related types are over the store, then a typed body that is like another one is. -/
theorem Block.Like.isOver {block other : Typed.Block}
    (owned : ∀ ty other, tys ty other → ty.Over store) (like : block.Like tys other) :
    block.Over store := by
  induction like with
  | system wiresLike equationsLike =>
      apply Block.Over.system
      · intro wire inside
        obtain ⟨_, wireLike⟩ := forall₂_exists_right wiresLike inside
        exact owned _ _ wireLike.ty
      · intro equation inside
        obtain ⟨_, equationLike⟩ := forall₂_exists_right equationsLike inside
        exact equationLike.value.isOver owned
  | choice _ _ first second => exact .choice first second

private theorem Expr.Like.flip {expr : Typed.Expr} : ∀ {other : Typed.Expr}, expr.Like tys other →
    other.Like (fun ty otherTy => tys otherTy ty) expr := by
  induction expr using Expr.inductionOnArgs with
  | const span ty value =>
      intro other like
      cases like with
      | const types => exact .const types
  | wire span ty name =>
      intro other like
      cases like with
      | wire types => exact .wire types
  | apply span ty operator args ih =>
      intro other like
      cases like with
      | apply types each =>
          exact .apply types (forall₂_imp_of_mem each fun arg inside _ => ih arg inside).flip
  | call span ty node statics args ih =>
      intro other like
      cases like with
      | call types each =>
          exact .call types (forall₂_imp_of_mem each fun arg inside _ => ih arg inside).flip

/-- Likeness of typed bodies read from the other side. -/
theorem Block.Like.flip {block other : Typed.Block} (like : block.Like tys other) :
    other.Like (fun ty otherTy => tys otherTy ty) block := by
  induction like with
  | system wiresLike equationsLike =>
      have wiresFlip := wiresLike.imp fun wire other wireLike =>
        (⟨wireLike.id.symm, wireLike.ty⟩ : Wire.Like (fun ty otherTy => tys otherTy ty) other wire)
      have equationsFlip := equationsLike.imp fun equation other equationLike =>
        (⟨equationLike.span.symm, equationLike.pattern.symm, equationLike.value.flip⟩ :
          Equation.Like (fun ty otherTy => tys otherTy ty) other equation)
      exact .system wiresFlip.flip equationsFlip.flip
  | choice _ _ first second => exact .choice first second

end Typed

/-! ## Ports -/

private theorem Circuit.Port.declare_mirrored (port : Port)
    (mirrors : checker.Mirrors mirror partner)
    (fixed : ∀ static ∈ port.declared.statics, mirror.Conditions static static) :
    Mirrored mirror checker (fun wire other store => wire.Like (mirror.TysOver store) other)
      (port.declare checker) (port.declare partner) := by
  apply Mirrored.bind (freshTy_mirrored mirrors)
  intro ty otherTy fresh otherFresh mirrors _ types
  apply Mirrored.bind (unifyAt_mirrored port.span mirrors types (.declared fixed))
  intro _ _ next last mirrors within _
  exact .pure mirrors ⟨rfl, within.tysOver types⟩

private theorem declarePorts_mirrored (ports : List Port)
    (fixed : ∀ port ∈ ports, ∀ static ∈ port.declared.statics, mirror.Conditions static static)
    (mirrors : checker.Mirrors mirror partner) :
    Mirrored mirror checker (fun wires others store =>
        List.Forall₂ (fun wire other => wire.Like (mirror.TysOver store) other) wires others)
      (ports.mapM Port.declare checker) (ports.mapM Port.declare partner) := by
  have same : List.Forall₂ (fun port other => port = other ∧ port ∈ ports) ports ports := by
    simp [List.forall₂_same]
  have eachInStep : ∀ port otherPort, port = otherPort ∧ port ∈ ports →
      ∀ {middle otherMiddle : Checker}, middle.Mirrors mirror otherMiddle →
        checker.types.Within middle.types →
        Mirrored mirror middle (fun wire other store => wire.Like (mirror.TysOver store) other)
          (port.declare middle) (otherPort.declare otherMiddle) := by
    rintro port _ ⟨rfl, inside⟩ middle otherMiddle mirrors _
    exact port.declare_mirrored mirrors (fixed port inside)
  apply Mirrored.mapM _ same mirrors eachInStep
  exact fun within like => like.imp fun _ _ types => within.tysOver types

private theorem resolveWires_mirrored {wires others : List Typed.Wire}
    (mirrors : checker.Mirrors mirror partner)
    (like : List.Forall₂ (Typed.Wire.Like (mirror.TysOver checker.types)) wires others) :
    Mirrored mirror checker (fun resolved otherResolved store =>
        List.Forall₂ (fun wire other => wire.Like (mirror.TysOver store) other) resolved
          otherResolved)
      (wires.mapM (fun wire => onTypes wire.resolve) checker)
      (others.mapM (fun wire => onTypes wire.resolve) partner) := by
  have eachInStep : ∀ wire other : Typed.Wire, wire.Like (mirror.TysOver checker.types) other →
      ∀ {middle otherMiddle : Checker}, middle.Mirrors mirror otherMiddle →
        checker.types.Within middle.types →
        Mirrored mirror middle (fun resolved otherResolved store =>
            resolved.Like (mirror.TysOver store) otherResolved)
          (onTypes wire.resolve middle) (onTypes other.resolve otherMiddle) := by
    intro wire other wireLike middle otherMiddle mirrors within
    have wireLike := wireLike.imp fun _ _ types => within.tysOver types
    have otherOver := mirrors.state.types.isOver wireLike.ty.like wireLike.ty.owned
    apply onTypes_mirrored mirrors
      (Typed.Wire.resolve_like mirrors.state.types.wellFormed wireLike.ty.owned (.refl _))
      (Typed.Wire.resolve_like mirrors.state.types.otherWellFormed otherOver (.refl _))
    intro resolved otherResolved store within resolves otherResolves
    apply wireLike.square _ resolves otherResolves
    intro ty otherTy next last types step otherStep
    exact within.tysOver (Mirrors.resolved mirrors types step otherStep)
  apply Mirrored.mapM _ like mirrors eachInStep
  exact fun within like => like.imp fun _ _ types => within.tysOver types

/-- Typed bodies that mirror each other do so when all links are followed. -/
theorem resolveBody_mirrored {body other : Typed.Block} (mirrors : checker.Mirrors mirror partner)
    (like : body.Like (mirror.TysOver checker.types) other) :
    Mirrored mirror checker (fun resolved otherResolved store =>
        resolved.Like (mirror.TysOver store) otherResolved)
      (onTypes body.resolve checker) (onTypes other.resolve partner) := by
  have bodyOver : body.Over checker.types := like.isOver fun _ _ types => types.owned
  have otherOver : other.Over partner.types := like.flip.isOver fun _ _ types =>
    mirrors.state.types.isOver types.like types.owned
  apply onTypes_mirrored mirrors
    (Typed.Block.resolve_like mirrors.state.types.wellFormed bodyOver (.refl _))
    (Typed.Block.resolve_like mirrors.state.types.otherWellFormed otherOver (.refl _))
  intro resolved otherResolved store within resolves otherResolves
  apply like.square _ resolves otherResolves
  intro ty otherTy next last types step otherStep
  exact within.tysOver (Mirrors.resolved mirrors types step otherStep)

private theorem portEnv_mirrors {inputs outputs otherInputs otherOutputs : List Typed.Wire}
    (inputsLike : List.Forall₂ (Typed.Wire.Like (mirror.TysOver store)) inputs otherInputs)
    (outputsLike : List.Forall₂ (Typed.Wire.Like (mirror.TysOver store)) outputs otherOutputs) :
    (portEnv inputs outputs).Mirrors mirror store (portEnv otherInputs otherOutputs) := by
  have insertAll : ∀ {wires others : List Typed.Wire} {env other : Env},
      List.Forall₂ (Typed.Wire.Like (mirror.TysOver store)) wires others →
      env.Mirrors mirror store other →
      Env.Mirrors mirror store (env.insertAll (wires.map fun wire => (wire.id.name, wire.ty)))
        (other.insertAll (others.map fun wire => (wire.id.name, wire.ty))) := by
    intro wires others env other like
    induction like generalizing env other with
    | nil => exact fun scopes => scopes
    | cons head _ ih => exact fun scopes => ih (.cons ⟨congrArg Ident.name head.id, head.ty⟩ scopes)
  exact insertAll (List.rel_append inputsLike outputsLike) .nil

/-! ## Nodes -/

private theorem register_mirrored (name : String) {signature other : Signature}
    (mirrors : checker.Mirrors mirror partner)
    (signatures : signature.Mirrors mirror checker.types other) :
    Mirrored mirror checker (fun _ _ _ => True) (register name signature checker)
      (register name other partner) := by
  have catalog : ∀ found, mirror.known found → Option.Rel (Signature.Mirrors mirror checker.types)
      ((checker.catalog.register name signature).get? found)
      ((partner.catalog.register name other).get? found) := by
    intro found known
    rw [Catalog.get?_register, Catalog.get?_register]
    by_cases same : found = name
    · rw [if_pos same, if_pos same]
      exact .some signatures
    · rw [if_neg same, if_neg same]
      exact mirrors.catalog found known
  exact InStep.returned ⟨⟨mirrors.state, mirrors.freshVars, mirrors.freshNames, catalog,
    mirrors.reported, mirrors.otherReported⟩, .refl _, trivial⟩

namespace Circuit.Node

variable {node : Node} {inputs outputs otherInputs otherOutputs : List Typed.Wire}

private theorem signature_mirrors {constraints others : List Static.Expr}
    (reads : mirror.ReadsNode node)
    (inputsLike : List.Forall₂ (Typed.Wire.Like (mirror.TysOver store)) inputs otherInputs)
    (outputsLike : List.Forall₂ (Typed.Wire.Like (mirror.TysOver store)) outputs otherOutputs)
    (renamed : List.Forall₂ mirror.Conditions constraints others) :
    (node.signature inputs outputs constraints).Mirrors mirror store
      (node.signature otherInputs otherOutputs others) := by
  have tys : ∀ {wires otherWires : List Typed.Wire},
      List.Forall₂ (Typed.Wire.Like (mirror.TysOver store)) wires otherWires →
      List.Forall₂ (mirror.TysOver store) (wires.map (·.ty)) (otherWires.map (·.ty)) := by
    intro wires otherWires like
    rw [List.forall₂_map_left_iff, List.forall₂_map_right_iff]
    exact like.imp fun _ _ wireLike => wireLike.ty
  exact ⟨⟨tys inputsLike, tys outputsLike, rfl, renamed⟩, reads.params⟩

/-- The ports in scope are alike. -/
structure IntroducedAlike (mirror : Mirror) (ports others : List Typed.Wire × List Typed.Wire)
    (store : TypeStore) : Prop where
  inputs : List.Forall₂ (Typed.Wire.Like (mirror.TysOver store)) ports.1 others.1
  outputs : List.Forall₂ (Typed.Wire.Like (mirror.TysOver store)) ports.2 others.2

private theorem introduce_mirrored (reads : mirror.ReadsNode node)
    (mirrors : checker.Mirrors mirror partner) :
    Mirrored mirror checker (IntroducedAlike mirror) (node.introduce checker)
      (node.introduce partner) := by
  have portsFixed : ∀ port ∈ node.inputs ++ node.outputs, ∀ static ∈ port.declared.statics,
      mirror.Conditions static static := by
    intro port inside static written
    exact reads.reads.statics static (List.mem_append_left _
      (List.mem_flatMap.mpr ⟨port, inside, written⟩))
  apply Mirrored.bind (declarePorts_mirrored node.inputs
    (fun port inside => portsFixed port (List.mem_append_left _ inside)) mirrors)
  intro inputs otherInputs first otherFirst mirrors _ inputsLike
  apply Mirrored.bind (declarePorts_mirrored node.outputs
    (fun port inside => portsFixed port (List.mem_append_right _ inside)) mirrors)
  intro outputs otherOutputs second otherSecond mirrors outputsWithin outputsLike
  have inputsLike := inputsLike.imp fun _ _ like =>
    like.imp fun _ _ types => outputsWithin.tysOver types
  apply Mirrored.bind (resolveWires_mirrored mirrors inputsLike)
  intro knownInputs otherKnownInputs third otherThird mirrors thirdWithin knownInputsLike
  have outputsLater := outputsLike.imp fun _ _ like =>
    like.imp fun _ _ types => thirdWithin.tysOver types
  apply Mirrored.bind (resolveWires_mirrored mirrors outputsLater)
  intro knownOutputs otherKnownOutputs fourth otherFourth mirrors fourthWithin knownOutputsLike
  have knownInputsLike := knownInputsLike.imp fun _ _ like =>
    like.imp fun _ _ types => fourthWithin.tysOver types
  apply Mirrored.bind (register_mirrored node.id.name mirrors
    (signature_mirrors reads knownInputsLike knownOutputsLike .nil))
  intro _ _ last otherLast mirrors lastWithin _
  have within := (thirdWithin.trans fourthWithin).trans lastWithin
  exact .pure mirrors
    ⟨inputsLike.imp fun _ _ like => like.imp fun _ _ types => within.tysOver types,
      outputsLike.imp fun _ _ like => like.imp fun _ _ types => within.tysOver types⟩

private theorem solvePending_mirrored (solves : mirror.Solves) (reads : mirror.ReadsNode node)
    (mirrors : checker.Mirrors mirror partner) :
    Mirrored mirror checker (fun solved other _ => Static.RenamedAll mirror.names solved other)
      (node.solvePending checker) (node.solvePending partner) := by
  have drained : Mirrored mirror checker (fun pending other _ =>
      Static.Agree (Static.Contradiction.Renamed mirror.names) (Static.RenamedAll mirror.names)
        (Static.solve node.paramNames pending) (Static.solve node.paramNames other))
      (drain checker) (drain partner) :=
    InStep.returned ⟨⟨⟨mirrors.state.types, solves.drain mirrors.state.constraints⟩,
      mirrors.freshVars, mirrors.freshNames, mirrors.catalog, mirrors.reported,
      mirrors.otherReported⟩, .refl _, solves.solve mirrors.state.constraints reads.params⟩
  apply Mirrored.bind drained
  intro pending other next last mirrors _ agree
  generalize Static.solve node.paramNames pending = outcome at agree ⊢
  generalize Static.solve node.paramNames other = otherOutcome at agree ⊢
  cases agree with
  | ok renamed => exact .pure mirrors renamed
  | error contradictions => exact .reject mirrors (.contradiction contradictions)

private theorem conclude_mirrored {body other : Typed.Block} (solves : mirror.Solves)
    (reads : mirror.ReadsNode node) (mirrors : checker.Mirrors mirror partner)
    (inputsLike : List.Forall₂ (Typed.Wire.Like (mirror.TysOver checker.types)) inputs otherInputs)
    (outputsLike :
      List.Forall₂ (Typed.Wire.Like (mirror.TysOver checker.types)) outputs otherOutputs)
    (bodyLike : body.Like (mirror.TysOver checker.types) other) :
    Mirrored mirror checker (fun typed otherTyped store =>
        typed.Like (mirror.TysOver store) mirror.Conditions otherTyped)
      (node.conclude inputs outputs body checker)
      (node.conclude otherInputs otherOutputs other partner) := by
  apply Mirrored.bind (resolveBody_mirrored mirrors bodyLike)
  intro typedBody otherBody first otherFirst mirrors firstWithin typedBodyLike
  apply Mirrored.bind (resolveWires_mirrored mirrors
    (inputsLike.imp fun _ _ like => like.imp fun _ _ types => firstWithin.tysOver types))
  intro typedInputs otherTypedInputs second otherSecond mirrors secondWithin typedInputsLike
  have soFar := firstWithin.trans secondWithin
  apply Mirrored.bind (resolveWires_mirrored mirrors
    (outputsLike.imp fun _ _ like => like.imp fun _ _ types => soFar.tysOver types))
  intro typedOutputs otherTypedOutputs third otherThird mirrors thirdWithin typedOutputsLike
  apply Mirrored.bind (solvePending_mirrored solves reads mirrors)
  intro constraints otherConstraints fourth otherFourth mirrors fourthWithin renamed
  have later := thirdWithin.trans fourthWithin
  have typedInputsLike := typedInputsLike.imp fun _ _ like =>
    like.imp fun _ _ types => later.tysOver types
  have typedOutputsLike := typedOutputsLike.imp fun _ _ like =>
    like.imp fun _ _ types => fourthWithin.tysOver types
  have signatures := signature_mirrors reads typedInputsLike typedOutputsLike renamed
  apply Mirrored.bind (register_mirrored node.id.name mirrors signatures)
  intro _ _ last otherLast mirrors lastWithin _
  have bodyLike := typedBodyLike.imp fun _ _ types =>
    ((secondWithin.trans later).trans lastWithin).tysOver types
  exact .pure mirrors ⟨rfl, rfl, rfl,
    typedInputsLike.imp fun _ _ like => like.imp fun _ _ types => lastWithin.tysOver types,
    typedOutputsLike.imp fun _ _ like => like.imp fun _ _ types => lastWithin.tysOver types,
    bodyLike, (signatures.within lastWithin).like⟩

/-- The definition of a node is checked in step in states that mirror each other. -/
theorem checkDefinition_mirrored (solves : mirror.Solves) (reads : mirror.ReadsNode node)
    (mirrors : checker.Mirrors mirror partner) :
    Mirrored mirror checker (fun typed other store =>
        typed.Like (mirror.TysOver store) mirror.Conditions other)
      (node.checkDefinition checker) (node.checkDefinition partner) := by
  rw [checkDefinition_eq]
  apply Mirrored.bind (introduce_mirrored reads mirrors)
  rintro ⟨inputs, outputs⟩ ⟨otherInputs, otherOutputs⟩ started otherStarted mirrors _
    ⟨inputsLike, outputsLike⟩
  have bodyReads : mirror.Reads node.body.statics node.body.calls :=
    ⟨fun static written => reads.reads.statics static (List.mem_append_right _ written),
      reads.reads.calls⟩
  apply Mirrored.bind (Env.checkBlock_mirrored node.body bodyReads mirrors
    (portEnv_mirrors inputsLike outputsLike))
  intro body otherBody checked otherChecked mirrors within bodyLike
  exact conclude_mirrored solves reads mirrors
    (inputsLike.imp fun _ _ like => like.imp fun _ _ types => within.tysOver types)
    (outputsLike.imp fun _ _ like => like.imp fun _ _ types => within.tysOver types) bodyLike

end Circuit.Node

/-! ## Programs -/

section Weaker

variable {tys others : Ty → Ty → Prop}
  {conditions otherConditions : Static.Expr → Static.Expr → Prop}
  (weaken : ∀ ty other, tys ty other → others ty other)
  (weakenConditions : ∀ condition other, conditions condition other →
    otherConditions condition other)

include weaken weakenConditions

/-- Likeness of typed nodes is monotone in what relates types and conditions. -/
theorem Typed.Node.Like.imp {node other : Typed.Node} (like : node.Like tys conditions other) :
    node.Like others otherConditions other where
  span := like.span
  id := like.id
  params := like.params
  inputs := like.inputs.imp fun _ _ wireLike => wireLike.imp weaken
  outputs := like.outputs.imp fun _ _ wireLike => wireLike.imp weaken
  body := like.body.imp weaken
  signature :=
    { inputs := like.signature.inputs.imp weaken
      outputs := like.signature.outputs.imp weaken
      params := like.signature.params
      constraints := like.signature.constraints.imp weakenConditions }

private theorem Cause.Like.imp {cause other : Cause} (like : cause.Like tys conditions other) :
    cause.Like others otherConditions other := by
  cases like with
  | typeMismatch founds expecteds =>
      exact .typeMismatch (weaken _ _ founds) (weaken _ _ expecteds)
  | contradiction related => exact .contradiction (weakenConditions _ _ related)
  | argsArity found expected => exact .argsArity found expected
  | paramsArity found expected => exact .paramsArity found expected
  | resultArity found expected => exact .resultArity found expected
  | kindMismatch found expected => exact .kindMismatch found expected
  | unboundNode name => exact .unboundNode name
  | unboundWire name => exact .unboundWire name

/-- Likeness of rejections is monotone in what relates types and conditions. -/
theorem Rejection.Like.imp {rejection other : Rejection}
    (like : rejection.Like tys conditions other) : rejection.Like others otherConditions other :=
  ⟨like.span, like.cause.imp weaken weakenConditions⟩

end Weaker

/-- The checks of a node have stopped alike: both report a rejection, at the same place and for
reasons that are alike, or both have misused the type store in the same way. -/
inductive Mirror.Stopped (mirror : Mirror) (node : Ident) :
    NodeError → NodeError → Checker → Checker → Prop
  | reported {next last : Checker} {rejection other : Rejection}
      (like : rejection.Like mirror.Tys mirror.Conditions other)
      (first : next.reported = mirror.reported ++ [rejection.toDiagnostic node])
      (second : last.reported = mirror.reported ++ [other.toDiagnostic node]) :
      Stopped mirror node .reported .reported next last
  | fault {next last : Checker} (fault : CheckFault) (first : next.reported = mirror.reported)
      (second : last.reported = mirror.reported) :
      Stopped mirror node (.fault fault) (.fault fault) next last

namespace Circuit

variable {node : Node}

private theorem Node.check_mirrored (solves : mirror.Solves) (reads : mirror.ReadsNode node)
    (mirrors : checker.Mirrors mirror partner) :
    InStep (fun typed other next last => next.Mirrors mirror last ∧
        typed.Like mirror.Tys mirror.Conditions other)
      (mirror.Stopped node.id) (node.check checker) (node.check partner) := by
  have defined := checkDefinition_mirrored solves reads mirrors
  unfold Node.check
  generalize node.checkDefinition checker = outcome at defined ⊢
  generalize node.checkDefinition partner = otherOutcome at defined ⊢
  cases defined with
  | returned related =>
      obtain ⟨mirrors, _, like⟩ := related
      exact .returned ⟨mirrors, like.imp (fun _ _ types => types.like) fun _ _ renamed => renamed⟩
  | failed stopped =>
      obtain ⟨mirrors, stops⟩ := stopped
      cases stops with
      | rejected like =>
          apply InStep.failed
          apply Mirror.Stopped.reported like
          · exact congrArg (· ++ _) mirrors.reported
          · exact congrArg (· ++ _) mirrors.otherReported
      | fault fault => exact .failed (.fault fault mirrors.reported mirrors.otherReported)

/-- Nodes are accepted one after another, up to the first whose rejection is reported. -/
theorem checkNodes_ends (nodes : List Node) (ready : checker.Ready) :
    Ends (checkNodes nodes) checker (fun _ next => next.Ready)
      (fun error next => error = .reported ∧ next.Ready) := by
  have each : ∀ node ∈ nodes, ∀ checker, checker.Ready → Ends node.check checker
      (fun _ next => next.Ready ∧ True) (fun error next => error = .reported ∧ next.Ready) := by
    intro node _ checker ready
    apply (node.check_ends ready).imp
    · exact fun _ _ accepted => ⟨accepted.ready, trivial⟩
    · exact fun _ _ reported => reported
  apply (Ends.mapM each checker ready).imp
  · exact fun _ _ accepted => accepted.1
  · exact fun _ _ reported => reported

/-- Nodes are checked in step, one after another, up to the first that is stopped. -/
theorem checkNodes_mirrored (solves : mirror.Solves) (nodes : List Node)
    (reads : ∀ node ∈ nodes, mirror.ReadsNode node) (mirrors : checker.Mirrors mirror partner) :
    InStep (fun typeds others next last => next.Mirrors mirror last ∧
        List.Forall₂ (Typed.Node.Like mirror.Tys mirror.Conditions) typeds others)
      (fun error other next last => ∃ node ∈ nodes, mirror.Stopped node.id error other next last)
      (checkNodes nodes checker) (checkNodes nodes partner) := by
  have same : List.Forall₂ (fun node other => node = other ∧ node ∈ nodes) nodes nodes := by
    simp [List.forall₂_same]
  apply InStep.mapM same _ checker partner mirrors
  rintro node _ ⟨rfl, inside⟩ checker partner mirrors
  apply (Node.check_mirrored solves (reads node inside) mirrors).imp
  · exact fun _ _ _ _ related => related
  · exact fun _ _ _ _ stopped => ⟨node, inside, stopped⟩

end Circuit

end CircuitWidths
