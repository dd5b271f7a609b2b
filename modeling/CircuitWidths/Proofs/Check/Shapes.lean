import CircuitWidths.Proofs.Check.Bodies
import CircuitWidths.Proofs.Check.Narrowing
import CircuitWidths.Proofs.Check.Written

/-!
# Shapes of circuits

Before its conditions are solved, a node can only be rejected for what is left of it when widths are
forgotten: unknown names, wrong numbers of arguments, static expressions of the wrong kind, and
wires that can not have one shape.  The rules below say when a circuit is well shaped.  They mention
neither type variables nor the order of equations, and equations are accepted exactly if they are
well shaped (`checkEquations_narrow`).
-/

namespace CircuitWidths

open CheckM Circuit TypeStore

/-! ## Rules -/

/-- The shape of a type without variables. -/
def Ty.outline (ty : Ty) : GroundTy := ty.shape fun _ => .unit

private theorem Ty.shape_eq_outline {ty : Ty} (closed : ty.vars = []) (shapes : Shapes) :
    ty.shape shapes = ty.outline := by
  apply Ty.shape_congr
  rw [closed]
  intro id inside
  cases inside

/-- Bits and buses have the same shape. -/
theorem Ty.Flat.shape_eq {ty : Ty} (flat : ty.Flat) (shapes : Shapes) :
    ty.shape shapes = .bits 1 := by
  cases flat <;> rfl

namespace Circuit

/-- An expression has a shape, by the rules of operators and calls. -/
inductive Expr.HasShape (catalog : Catalog) (scope : Bindings GroundTy) : Expr → GroundTy → Prop
  | const {span : Source.Span} {value : Literal} :
      HasShape catalog scope (.const span value) (.bits 1)
  | wire {span : Source.Span} {id : Ident} {shape : GroundTy}
      (bound : scope.get? id.name = some shape) : HasShape catalog scope (.wire span id) shape
  | apply {span : Source.Span} {operator : Operator} {args : List Expr}
      (kinds : ∀ static ∈ operator.statics, static.HasKind .int)
      (shaped : List.Forall₂ (HasShape catalog scope) args (.replicate operator.arity (.bits 1))) :
      HasShape catalog scope (.apply span operator args) (.bits 1)
  | call {span : Source.Span} {node : Ident} {statics : List Static.Expr} {args : List Expr}
      {signature : Signature} (kinds : ∀ static ∈ statics, static.HasKind .int)
      (instantiated : catalog.instantiate node.name statics = .ok signature)
      (shaped : List.Forall₂ (HasShape catalog scope) args (signature.inputs.map Ty.outline)) :
      HasShape catalog scope (.call span node statics args) (Ty.ofOutputs signature.outputs).outline

/-- Both sides of an equation have the same shape. -/
def Equation.WellShaped (catalog : Catalog) (scope : Bindings GroundTy) (equation : Equation) :
    Prop :=
  ∃ shape, equation.pattern.HasType scope shape ∧ equation.value.HasShape catalog scope shape

/-- A wire with a declared type is a bus. -/
def Local.AdmitsShape (wire : Local) (shape : GroundTy) : Prop :=
  ∀ declared, wire.declared = some declared → shape = .bits 1

/-- There are shapes for the wires of every system with which its equations are well shaped. -/
inductive Block.WellShaped (catalog : Catalog) (scope : Bindings GroundTy) : Block → Prop
  | system {span : Source.Span} {locals : List Local} {equations : List Equation}
      (shapes : List GroundTy) (annotated : List.Forall₂ Local.AdmitsShape locals shapes)
      (shaped : ∀ equation ∈ equations, equation.WellShaped catalog
        (scope.insertAll ((locals.map (·.id.name)).zip shapes))) :
      WellShaped catalog scope (.system span locals equations)
  | choice {span : Source.Span} {condition : Static.Expr} {onTrue onFalse : Block}
      (kind : condition.HasKind .bool) (first : WellShaped catalog scope onTrue)
      (second : WellShaped catalog scope onFalse) :
      WellShaped catalog scope (.choice span condition onTrue onFalse)

end Circuit

variable {checker next : Checker}

/-! ## Rules of operators and calls -/

namespace Rule

/-- The shapes that a rule asks for and gives. -/
def shapes (shapes : Shapes) (rule : Rule) : List GroundTy × GroundTy :=
  (rule.inputs.map (Ty.shape shapes), rule.output.shape shapes)

private theorem shapes_rule (operator : Operator) (widths : Nat → Static.Expr) (shapes : Shapes) :
    (operator.rule widths).shapes shapes = (.replicate operator.arity (.bits 1), .bits 1) := by
  obtain ⟨inputs, output⟩ := operator.rule_flat widths
  refine Prod.ext (List.eq_replicate_iff.mpr ⟨?_, fun shape inside => ?_⟩) (output.shape_eq shapes)
  · rw [Rule.shapes, List.length_map, operator.length_rule_inputs]
  · obtain ⟨ty, member, rfl⟩ := List.mem_map.mp inside
    exact (inputs ty member).shape_eq shapes

private theorem expectKinds_narrows (span : Source.Span) (kind : Static.Kind)
    (exprs : List Static.Expr) :
    ∀ {checker : Checker}, Narrows (exprs.forM fun expr => expectKind span expr kind) checker
      (fun _ _ => ()) (fun _ _ => ∀ expr ∈ exprs, expr.HasKind kind) := by
  induction exprs with
  | nil => exact .of_ok rfl rfl (by simp)
  | cons expr exprs ih =>
      intro checker
      apply Narrows.congr (Narrows.demand (expectKind_narrows span expr kind) fun _ _ _ => ih)
      intro _ _
      rw [List.forall_mem_cons]

private theorem ofOperator_narrows (span : Source.Span) (operator : Operator) :
    Narrows (ofOperator span operator) checker (fun rule shapes => rule.shapes shapes)
      (fun _ result => (∀ static ∈ operator.statics, static.HasKind .int) ∧
        (List.replicate operator.arity (.bits 1), .bits 1) = result) := by
  rw [ofOperator_eq]
  apply Narrows.congr
  · apply Narrows.demand (expectKinds_narrows span .int operator.statics)
    intro _ _ _
    apply Narrows.demand (generate_narrows operator.generated)
    intro widths _ _
    apply Narrows.pure
    intro shapes result
    rw [shapes_rule]
  · simp

private theorem ofCall_narrows (span : Source.Span) (node : Ident) (statics : List Static.Expr)
    (wellFormed : checker.types.WellFormed) (closed : checker.catalog.Closed) :
    Narrows (ofCall span node statics) checker (fun rule shapes => rule.shapes shapes)
      (fun _ result => (∀ static ∈ statics, static.HasKind .int) ∧
        ∃ signature, checker.catalog.instantiate node.name statics = .ok signature ∧
          (signature.inputs.map Ty.outline, (Ty.ofOutputs signature.outputs).outline) = result) := by
  apply Narrows.demand (expectKinds_narrows span .int statics)
  intro _ middle run
  obtain ⟨_, grows, _⟩ := Ends.returned (expectKinds_checks span .int statics wellFormed) run
  apply Narrows.get_bind
  rw [grows.catalog]
  cases outcome : checker.catalog.instantiate node.name statics with
  | ok signature =>
      have ruleClosed := ofSignature_closed (closed.instantiate outcome)
      apply Narrows.pure
      intro shapes result
      have inputs : signature.inputs.map (Ty.shape shapes) = signature.inputs.map Ty.outline :=
        List.map_congr_left fun ty inside => Ty.shape_eq_outline (ruleClosed.inputs ty inside) shapes
      have seen : (ofSignature signature).shapes shapes =
          (signature.inputs.map Ty.outline, (Ty.ofOutputs signature.outputs).outline) :=
        Prod.ext inputs (Ty.shape_eq_outline ruleClosed.output shapes)
      constructor
      · exact fun same => ⟨signature, rfl, seen.symm.trans same⟩
      · rintro ⟨_, ⟨⟩, same⟩
        exact seen.trans same
  | error error =>
      have absent : ∀ (shapes : Shapes) (result : List GroundTy × GroundTy), ¬ ∃ signature,
          (Except.error error : Except _ Signature) = .ok signature ∧
          (signature.inputs.map Ty.outline, (Ty.ofOutputs signature.outputs).outline) = result := by
        rintro _ _ ⟨_, ⟨⟩, _⟩
      cases error with
      | unboundNode => exact .reject (by simp) absent
      | paramsArity found expected => exact .reject (by simp) absent

private theorem expectArity_narrows (span : Source.Span) (rule : Rule) (count : Nat) :
    Narrows (rule.expectArity span count) checker (fun _ _ => ())
      (fun _ _ => count = rule.inputs.length) := by
  unfold expectArity
  by_cases same : count = rule.inputs.length
  · rw [if_pos same]
    exact .of_ok rfl rfl fun _ _ => same
  · rw [if_neg same]
    exact .reject (by simp) fun _ _ => same

private theorem demand_narrows (rule : Rule) :
    Narrows rule.demand checker (fun _ _ => ()) (fun _ _ => True) :=
  .of_ok (forM_emit_run rule.conditions checker) rfl fun _ _ => trivial

end Rule

/-! ## Expressions -/

namespace Env

variable {env : Env} {catalog : Catalog}

private theorem typeOf_narrows (env : Env) (id : Ident) :
    Narrows (env.typeOf id) checker (fun ty shapes => ty.shape shapes)
      (fun shapes result => (env.map (Ty.shape shapes)).get? id.name = some result) := by
  unfold typeOf
  cases bound : env.get? id.name with
  | none => exact .reject (by simp) fun shapes result => by simp [bound]
  | some ty => exact .pure fun shapes result => by simp [bound]

/-- Wherever the expression stands, it asks for the shapes that the rules give it. -/
def NarrowsAnywhere (env : Env) (catalog : Catalog) (expr : Circuit.Expr) : Prop :=
  ∀ {checker : Checker}, checker.types.WellFormed → checker.catalog = catalog →
    env.Over checker.types →
    Narrows (env.infer expr) checker (fun typed shapes => typed.ty.shape shapes)
      (fun shapes result => expr.HasShape catalog (env.map (Ty.shape shapes)) result)

private theorem inferAll_narrows (closed : catalog.Closed) {args : List Circuit.Expr}
    (each : ∀ arg ∈ args, env.NarrowsAnywhere catalog arg) :
    ∀ {expected : List Ty} {checker : Checker}, args.length = expected.length →
      (∀ ty ∈ expected, ty.vars = []) → checker.types.WellFormed → checker.catalog = catalog →
      env.Over checker.types → Narrows (env.inferAll args expected) checker (fun _ _ => ())
        (fun shapes _ => List.Forall₂ (Expr.HasShape catalog (env.map (Ty.shape shapes))) args
          (expected.map (Ty.shape shapes))) := by
  induction args with
  | nil =>
      intro expected checker length _ _ _ _
      obtain rfl := List.length_eq_zero_iff.mp length.symm
      exact .of_ok rfl rfl fun _ _ => .nil
  | cons arg args ih =>
      intro expected checker length expectedClosed wellFormed known envOver
      obtain ⟨first, rest, rfl⟩ := List.exists_cons_of_length_eq_add_one length.symm
      obtain ⟨firstClosed, restClosed⟩ := List.forall_mem_cons.mp expectedClosed
      obtain ⟨eachFirst, eachRest⟩ := List.forall_mem_cons.mp each
      rw [inferAll]
      apply Narrows.congr
      · apply Narrows.bind (fun shapes shape _ => shape = first.shape shapes ∧
          List.Forall₂ (Expr.HasShape catalog (env.map (Ty.shape shapes))) args
            (rest.map (Ty.shape shapes)) ∧ True) (eachFirst wellFormed known envOver)
        intro typed inferred inferRun
        obtain ⟨inferWellFormed, inferGrows, infers⟩ :=
          Ends.returned (infer_checks closed arg wellFormed known envOver) inferRun
        have typedOver := infers.owned.ty_over
        apply Narrows.demand
          (unifyAt_narrows arg.span inferWellFormed typedOver (.of_closed firstClosed))
        intro _ unified unifyRun
        obtain ⟨unifyWellFormed, unifyGrows, _⟩ := Ends.returned
          (unifyAt_checks arg.span inferWellFormed typedOver (.of_closed firstClosed)) unifyRun
        have grows := inferGrows.trans unifyGrows
        apply Narrows.demand (ih eachRest (by simpa using length) restClosed unifyWellFormed
          (grows.catalog.trans known) (envOver.later grows.types))
        intro typedArgs _ _
        exact .done
      · intro shapes _
        simp

/-- The arguments of an operator or a call have the shapes that its rule asks for. -/
theorem arguments_narrow {rule : Rule} {args : List Circuit.Expr}
    {finish : List Typed.Expr → Typed.Expr} (span : Source.Span) (closed : checker.catalog.Closed)
    (each : ∀ arg ∈ args, env.NarrowsAnywhere checker.catalog arg) (ruleClosed : rule.Closed)
    (finished : ∀ typedArgs, (finish typedArgs).ty = rule.output)
    (wellFormed : checker.types.WellFormed) (envOver : env.Over checker.types) :
    Narrows (do
        rule.expectArity span args.length
        let typedArgs ← env.inferAll args rule.inputs
        rule.demand
        pure (finish typedArgs)) checker (fun typed shapes => typed.ty.shape shapes)
      (fun shapes result => List.Forall₂ (Expr.HasShape checker.catalog (env.map (Ty.shape shapes)))
        args (rule.shapes shapes).1 ∧ (rule.shapes shapes).2 = result) := by
  apply Narrows.congr
  · apply Narrows.demand (rule.expectArity_narrows span args.length)
    intro _ arity arityRun
    obtain ⟨arityWellFormed, arityGrows, length⟩ :=
      Ends.returned (rule.expectArity_checks span args.length wellFormed) arityRun
    apply Narrows.demand (inferAll_narrows closed each length ruleClosed.inputs arityWellFormed
      arityGrows.catalog (envOver.later arityGrows.types))
    intro typedArgs _ _
    apply Narrows.demand rule.demand_narrows
    intro _ last _
    have finishes : Narrows (pure (finish typedArgs)) last (fun typed shapes => typed.ty.shape shapes)
        (fun shapes result => (rule.shapes shapes).2 = result) := by
      apply Narrows.pure
      intro shapes result
      rw [finished]
      rfl
    exact finishes
  · intro shapes result
    constructor
    · rintro ⟨_, shaped, _, same⟩
      exact ⟨shaped, same⟩
    · rintro ⟨shaped, same⟩
      have length : args.length = rule.inputs.length := by simpa [Rule.shapes] using shaped.length_eq
      exact ⟨length, shaped, trivial, same⟩

/-- An operator or a call, with whatever its rule itself asks for. -/
theorem application_narrows {makeRule : CheckM Rule} {args : List Circuit.Expr}
    {asks : Shapes → List GroundTy × GroundTy → Prop}
    {finish : Rule → List Typed.Expr → Typed.Expr} (span : Source.Span)
    (narrows : Narrows makeRule checker (fun rule shapes => rule.shapes shapes) asks)
    (checks : Checks makeRule checker fun rule _ => rule.Closed) (closed : checker.catalog.Closed)
    (each : ∀ arg ∈ args, env.NarrowsAnywhere checker.catalog arg)
    (finished : ∀ rule typedArgs, (finish rule typedArgs).ty = rule.output)
    (envOver : env.Over checker.types) :
    Narrows (do
        let rule ← makeRule
        rule.expectArity span args.length
        let typedArgs ← env.inferAll args rule.inputs
        rule.demand
        pure (finish rule typedArgs)) checker (fun typed shapes => typed.ty.shape shapes)
      (fun shapes result => ∃ ruleShapes, asks shapes ruleShapes ∧
        List.Forall₂ (Expr.HasShape checker.catalog (env.map (Ty.shape shapes))) args ruleShapes.1 ∧
          ruleShapes.2 = result) := by
  apply Narrows.bind (fun shapes ruleShapes result =>
    List.Forall₂ (Expr.HasShape checker.catalog (env.map (Ty.shape shapes))) args ruleShapes.1 ∧
      ruleShapes.2 = result) narrows
  intro rule middle run
  obtain ⟨middleWellFormed, grows, ruleClosed⟩ := Ends.returned checks run
  rw [← grows.catalog] at closed each ⊢
  exact arguments_narrow span closed each ruleClosed (finished rule) middleWellFormed
    (envOver.later grows.types)

/-- An expression is accepted exactly if it has a shape, and gets a type of this shape. -/
theorem infer_narrows (closed : catalog.Closed) (expr : Circuit.Expr) :
    env.NarrowsAnywhere catalog expr := by
  induction expr with
  | const span value =>
      intro checker _ _ _
      rw [infer]
      apply Narrows.pure
      intro shapes result
      constructor
      · rintro rfl
        cases value <;> exact .const
      · rintro ⟨⟩
        cases value <;> rfl
  | wire span id =>
      intro checker _ _ _
      rw [infer]
      apply Narrows.congr
      · apply Narrows.bind (fun _ shape result => shape = result) (typeOf_narrows env id)
        intro ty _ _
        exact .pure fun _ _ => Iff.rfl
      · intro shapes result
        constructor
        · rintro ⟨_, bound, rfl⟩
          exact .wire bound
        · intro hasShape
          cases hasShape with
          | wire bound => exact ⟨_, bound, rfl⟩
  | apply span operator args ih =>
      rintro checker wellFormed rfl envOver
      rw [infer]
      have checks := (Rule.ofOperator_checks span operator wellFormed).imp
        fun _ _ _ _ ruled => ruled.1
      apply Narrows.congr
      · exact application_narrows span (Rule.ofOperator_narrows span operator) checks closed ih
          (fun _ _ => rfl) envOver
      · intro shapes result
        constructor
        · rintro ⟨_, ⟨kinds, rfl⟩, shaped, rfl⟩
          exact .apply kinds shaped
        · intro hasShape
          cases hasShape with
          | apply kinds shaped => exact ⟨_, ⟨kinds, rfl⟩, shaped, rfl⟩
  | call span node statics args ih =>
      rintro checker wellFormed rfl envOver
      rw [infer]
      have checks := (Rule.ofCall_checks span node statics wellFormed closed).imp
        fun _ _ _ _ ruled => ruled.1
      apply Narrows.congr
      · exact application_narrows span (Rule.ofCall_narrows span node statics wellFormed closed)
          checks closed ih (fun _ _ => rfl) envOver
      · intro shapes result
        constructor
        · rintro ⟨_, ⟨kinds, signature, instantiated, rfl⟩, shaped, rfl⟩
          exact .call kinds instantiated shaped
        · intro hasShape
          cases hasShape with
          | call kinds instantiated shaped =>
              exact ⟨_, ⟨kinds, _, instantiated, rfl⟩, shaped, rfl⟩

/-! ## Equations -/

private theorem patternTy_narrows (env : Env) (pattern : Pattern) :
    Narrows (env.patternTy pattern) checker (fun ty shapes => ty.shape shapes)
      (fun shapes result => pattern.HasType (env.map (Ty.shape shapes)) result) := by
  cases pattern with
  | single id =>
      apply Narrows.congr (typeOf_narrows env id)
      intro shapes result
      constructor
      · exact fun bound => .single bound
      · intro hasType
        cases hasType with
        | single bound => exact bound
  | tuple ids =>
      have eachNarrows : ∀ id ∈ ids, ∀ middle : Checker, True →
          Narrows (env.typeOf id) middle (fun ty shapes => ty.shape shapes) (fun shapes result =>
            (env.map (Ty.shape shapes)).get? id.name = some result) ∧
          ∀ value next, env.typeOf id middle = .ok value next → True :=
        fun id _ _ _ => ⟨typeOf_narrows env id, fun _ _ _ => trivial⟩
      apply Narrows.congr
      · apply Narrows.bind (fun _ shapes result => GroundTy.product shapes = result)
          (Narrows.mapM eachNarrows checker trivial)
        intro tys _ _
        apply Narrows.pure
        intro shapes result
        rw [Ty.shape_product]
      · intro shapes result
        constructor
        · rintro ⟨tys, bound, rfl⟩
          exact .tuple bound
        · intro hasType
          cases hasType with
          | tuple bound => exact ⟨_, bound, rfl⟩

private theorem check_narrows {expected : Ty} (closed : catalog.Closed) (expr : Circuit.Expr)
    (wellFormed : checker.types.WellFormed) (known : checker.catalog = catalog)
    (envOver : env.Over checker.types) (expectedOver : expected.Over checker.types) :
    Narrows (env.check expr expected) checker (fun _ _ => ())
      (fun shapes _ =>
        expr.HasShape catalog (env.map (Ty.shape shapes)) (expected.shape shapes)) := by
  apply Narrows.congr
  · apply Narrows.bind (fun shapes shape _ => shape = expected.shape shapes ∧ True)
      (infer_narrows closed expr wellFormed known envOver)
    intro typed inferred run
    obtain ⟨inferWellFormed, grows, infers⟩ :=
      Ends.returned (infer_checks closed expr wellFormed known envOver) run
    apply Narrows.demand (unifyAt_narrows expr.span inferWellFormed infers.owned.ty_over
      (grows.types.owned expectedOver))
    intro _ _ _
    exact .done
  · intro shapes _
    simp

/-- An equation is accepted exactly if both sides can have the same shape. -/
theorem checkEquation_narrows (closed : catalog.Closed) (equation : Equation)
    (wellFormed : checker.types.WellFormed) (known : checker.catalog = catalog)
    (envOver : env.Over checker.types) :
    Narrows (env.checkEquation equation) checker (fun _ _ => ())
      (fun shapes _ => equation.WellShaped catalog (env.map (Ty.shape shapes))) := by
  apply Narrows.congr
  · apply Narrows.bind (fun shapes shape _ =>
      equation.value.HasShape catalog (env.map (Ty.shape shapes)) shape ∧ True)
      (patternTy_narrows env equation.pattern)
    intro expected patterned run
    obtain ⟨patternWellFormed, grows, expectedOver, _⟩ :=
      Ends.returned (patternTy_checks equation.pattern wellFormed envOver) run
    apply Narrows.demand (check_narrows closed equation.value patternWellFormed
      (grows.catalog.trans known) (envOver.later grows.types) expectedOver)
    intro _ _ _
    exact .done
  · intro shapes _
    simp [Equation.WellShaped]

/-- What equations ask of the shapes of wires is that all of them are well shaped. -/
theorem checkEquations_narrow (closed : catalog.Closed) (equations : List Equation)
    (wellFormed : checker.types.WellFormed) (known : checker.catalog = catalog)
    (envOver : env.Over checker.types) :
    Narrows (equations.mapM env.checkEquation) checker (fun _ _ => ())
      (fun shapes _ => ∀ equation ∈ equations,
        equation.WellShaped catalog (env.map (Ty.shape shapes))) := by
  let invariant (middle : Checker) : Prop :=
    middle.types.WellFormed ∧ middle.catalog = catalog ∧ env.Over middle.types
  have eachNarrows : ∀ equation ∈ equations, ∀ middle, invariant middle →
      Narrows (env.checkEquation equation) middle (fun _ _ => ()) (fun shapes _ =>
        equation.WellShaped catalog (env.map (Ty.shape shapes))) ∧
      ∀ value next, env.checkEquation equation middle = .ok value next → invariant next := by
    rintro equation _ middle ⟨middleWellFormed, middleKnown, middleOver⟩
    refine ⟨checkEquation_narrows closed equation middleWellFormed middleKnown middleOver, ?_⟩
    intro value next run
    obtain ⟨nextWellFormed, grows, _⟩ := Ends.returned (checkEquation_checks equation
      middleWellFormed (middleKnown ▸ closed) middleOver) run
    exact ⟨nextWellFormed, grows.catalog.trans middleKnown, middleOver.later grows.types⟩
  apply (Narrows.mapM eachNarrows checker ⟨wellFormed, known, envOver⟩).forget.congr
  intro shapes _
  constructor
  · rintro ⟨results, each⟩ equation inside
    obtain ⟨_, wellShaped⟩ := forall₂_exists_right each inside
    exact wellShaped
  · intro each
    refine ⟨equations.map fun _ => (), ?_⟩
    rw [List.forall₂_map_right_iff]
    exact List.forall₂_same.mpr each

end Env

end CircuitWidths
