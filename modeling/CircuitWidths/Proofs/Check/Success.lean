import CircuitWidths.Proofs.Check.Written

/-!
# Well-typed circuits are accepted

The values of the widths and the ground types of the wires that a check will generate can be read
off a derivation of the rules before the check is run.  Under a model that supplies them, every
step of the check is met and returns, and the model remains a model of the state.
-/

namespace CircuitWidths

open CheckM Circuit
open Static (Reading Valuation AllHold)

variable {α β : Type} {checker middle next : Checker} {model : Model} {reading : Reading}
  {values : Valuation} {aside : String → Prop} {catalog : Catalog}

/-- The model is still one, and so many widths and type variables were generated. -/
structure Arrives (model : Model) (checker : Checker) (widths tys : Nat) (next : Checker) :
    Prop where
  satisfies : model.Satisfies next.toUnification
  nextWidth : next.nextWidth = checker.nextWidth + widths
  size : next.types.size = checker.types.size + tys

/-- The next generated widths have these values. -/
def Model.SuppliesWidths (model : Model) (checker : Checker) (widths : List Int) : Prop :=
  Supplies (fun index => model.values (checker.settings.widthStem ++ index.repr))
    checker.nextWidth widths

/-- A model arrives where it starts, with nothing used up. -/
theorem Arrives.refl (satisfies : model.Satisfies checker.toUnification) :
    Arrives model checker 0 0 checker :=
  ⟨satisfies, rfl, rfl⟩

/-- What is used up on the way adds up. -/
theorem Arrives.trans {firstWidths firstTys widths tys : Nat}
    (first : Arrives model checker firstWidths firstTys middle)
    (second : Arrives model middle widths tys next) :
    Arrives model checker (firstWidths + widths) (firstTys + tys) next where
  satisfies := second.satisfies
  nextWidth := by rw [second.nextWidth, first.nextWidth, Nat.add_assoc]
  size := by rw [second.size, first.size, Nat.add_assoc]

/-- After some of the widths have been used, the others are still there. -/
theorem Model.SuppliesWidths.rest {first second : List Int} {tys : Nat}
    (supplies : model.SuppliesWidths checker (first ++ second)) (grows : checker.Grows next)
    (arrives : Arrives model checker first.length tys next) :
    model.SuppliesWidths next second := by
  rw [SuppliesWidths, grows.settings, arrives.nextWidth]
  exact (supplies_append.mp supplies).2

/-- Steps that generate no widths leave the supply as it is. -/
theorem Model.SuppliesWidths.later {widths : List Int} {tys : Nat}
    (supplies : model.SuppliesWidths checker widths) (grows : checker.Grows next)
    (arrives : Arrives model checker 0 tys next) : model.SuppliesWidths next widths := by
  rw [SuppliesWidths, grows.settings, arrives.nextWidth]
  exact supplies

/-- After some of the types have been used, the others are still there. -/
theorem Model.SuppliesTypes.rest {first second : List GroundTy} {widths : Nat}
    (supplies : model.SuppliesTypes checker.types (first ++ second)) (grows : checker.Grows next)
    (arrives : Arrives model checker widths first.length next) :
    model.SuppliesTypes next.types second := by
  rw [SuppliesTypes, grows.types.owner, arrives.size]
  exact (supplies_append.mp supplies).2

/-- Steps that make no type variables leave the supply as it is. -/
theorem Model.SuppliesTypes.later {tys : List GroundTy} {widths : Nat}
    (supplies : model.SuppliesTypes checker.types tys) (grows : checker.Grows next)
    (arrives : Arrives model checker widths 0 next) : model.SuppliesTypes next.types tys := by
  rw [SuppliesTypes, grows.types.owner, arrives.size]
  exact supplies

/-- A step that can not fail, followed by another; what is known of its result by its
specification may be used. -/
theorem Checks.succeeding {step : CheckM α} {rest : α → CheckM β}
    {between reached : α → Checker → Prop} {returns : β → Checker → Prop}
    (checks : Checks step checker between) (succeeds : Ends step checker reached Never)
    (continues : ∀ value middle, middle.types.WellFormed → checker.Grows middle →
      between value middle → reached value middle → Ends (rest value) middle returns Never) :
    Ends (step >>= rest) checker returns Never := by
  obtain ⟨value, middle, run, arrived⟩ := succeeds.exists_ok
  obtain ⟨wellFormed, grows, checked⟩ := Ends.returned checks run
  exact .after run (continues value middle wellFormed grows checked arrived)

namespace CheckM

private theorem generate_succeeds {widths : List Int}
    (satisfies : model.Satisfies checker.toUnification)
    (supplies : model.SuppliesWidths checker widths) :
    Ends (generate widths.length) checker (fun generated next =>
      Arrives model checker widths.length 0 next ∧
        Supplies (fun index => (generated index).value model.reading model.values) 0 widths)
      Never := by
  have shifted := (@supplies_shift _ _ checker.nextWidth _ 0).mpr supplies
  exact .of_ok rfl ⟨⟨satisfies, rfl, rfl⟩, shifted⟩

/-- Expressions of the expected kind pass, and the state stays as it is. -/
theorem expectKinds_run {span : Source.Span} {kind : Static.Kind} {exprs : List Static.Expr}
    (kinds : ∀ expr ∈ exprs, expr.HasKind kind) (checker : Checker) :
    (exprs.forM fun expr => expectKind span expr kind) checker = .ok () checker := by
  induction exprs with
  | nil => rfl
  | cons expr exprs ih =>
      obtain ⟨head, tail⟩ := List.forall_mem_cons.mp kinds
      exact (bind_of_ok (expectKind_run head)).trans (ih tail)

/-- The next type variable stands for the next type in supply. -/
theorem freshTy_succeeds {ground : GroundTy} (satisfies : model.Satisfies checker.toUnification)
    (supplies : model.SuppliesTypes checker.types [ground]) :
    Ends freshTy checker (fun ty next => Arrives model checker 0 1 next ∧
      ty.denote model = ground) Never := by
  have size := checker.types.fresh_spec.2.2.1
  have respects := TypeStore.fresh_respects satisfies.respects
  exact .of_ok rfl ⟨⟨⟨respects, satisfies.meets⟩, rfl, size⟩, supplies.1⟩

/-- Types that are equal in a model can be made equal, and it is still a model. -/
theorem unifyAt_succeeds (span : Source.Span) {found expected : Ty}
    (wellFormed : checker.types.WellFormed) (foundOver : found.Over checker.types)
    (expectedOver : expected.Over checker.types)
    (satisfies : model.Satisfies checker.toUnification)
    (same : found.denote model = expected.denote model) :
    Ends (unifyAt span found expected) checker
      (fun _ next => Arrives model checker 0 0 next) Never :=
  (unifyAt_ends span wellFormed foundOver expectedOver).imp
    (fun _ _ unified => ⟨(unified.exactly model).mpr ⟨satisfies, same⟩, unified.nextWidth,
      unified.size⟩)
    fun _ _ ⟨_, never⟩ => never model satisfies same

end CheckM

/-! ## Rules of operators and calls -/

namespace Rule

/-- Under the model the rule asks for these types, gives this type, and its conditions are met. -/
structure Fits (model : Model) (rule : Rule) (tys : List GroundTy) (ty : GroundTy) : Prop where
  inputs : rule.inputs.map (Ty.denote model) = tys
  output : rule.output.denote model = ty
  conditions : model.Meets rule.conditions

/-- An operator admits types only if its rule asks for and gives them, once the generated widths
have the right values. -/
theorem exists_fits {operator : Operator} {tys : List GroundTy} {ty : GroundTy}
    (admits : operator.Admits reading values tys ty)
    (omits : ∀ static ∈ operator.statics, static.Omits aside) :
    ∃ numbers : List Int, numbers.length = operator.generated ∧
      ∀ {model : Model} {widths : Nat → Static.Expr}, model.Continues reading values aside →
        Supplies (fun index => (widths index).value model.reading model.values) 0 numbers →
        (operator.rule widths).Fits model tys ty := by
  cases admits with
  | reg | not | mux | gate _ =>
      exact ⟨[], rfl, fun _ _ => ⟨rfl, rfl, by simp [Operator.rule, Model.Meets]⟩⟩
  | @select index width _ inside =>
      refine ⟨[width], rfl, fun continues supplies => ?_⟩
      have same := supplies.1
      refine ⟨by simp [Operator.rule, same], rfl, ?_⟩
      rw [← continues.value_eq (omits index (by simp [Operator.statics]))] at inside
      simpa [Operator.rule, Model.Meets, same] using inside
  | @slice first last width _ _ positive inside =>
      refine ⟨[width], rfl, fun continues supplies => ?_⟩
      have same := supplies.1
      rw [← continues.value_eq (omits first (by simp [Operator.statics]))] at positive ⊢
      rw [← continues.value_eq (omits last (by simp [Operator.statics]))] at inside ⊢
      refine ⟨by simp [Operator.rule, same], by simp [Operator.rule], ?_⟩
      simpa [Operator.rule, Model.Meets, Static.Expr.value, same] using And.intro positive inside
  | concat left right =>
      refine ⟨[left, right], rfl, fun _ supplies => ?_⟩
      have leftSame := supplies.1
      have rightSame := supplies.2.1
      refine ⟨?_, ?_, ?_⟩
      · simp [Operator.rule, leftSame, rightSame]
      · simp [Operator.rule, Static.Expr.value, Static.Op.value, leftSame, rightSame]
      · simp [Operator.rule, Model.Meets]
  | @rom addressSize wordSize _ _ | @ram addressSize wordSize _ _ =>
      refine ⟨[], rfl, fun continues _ => ?_⟩
      have address := continues.value_eq (omits addressSize (by simp [Operator.statics]))
      have word := continues.value_eq (omits wordSize (by simp [Operator.statics]))
      exact ⟨by simp [Operator.rule, address, word], by simp [Operator.rule, word],
        by simp [Operator.rule, Model.Meets]⟩

private theorem ofOperator_succeeds {operator : Operator} {tys : List GroundTy} {ty : GroundTy}
    (admits : operator.Admits reading values tys ty)
    (omits : ∀ static ∈ operator.statics, static.Omits aside) :
    ∃ widths : List Int, ∀ {model : Model} {checker : Checker} (span : Source.Span),
      model.Continues reading values aside → model.Satisfies checker.toUnification →
      model.SuppliesWidths checker widths →
      Ends (ofOperator span operator) checker (fun rule next =>
        Arrives model checker widths.length 0 next ∧ rule.Fits model tys ty) Never := by
  obtain ⟨numbers, count, fits⟩ := exists_fits admits omits
  refine ⟨numbers, fun {model checker} span continues satisfies supplies => ?_⟩
  rw [ofOperator_eq, ← count]
  refine .after (expectKinds_run admits.kinds checker) ?_
  refine .bind (generate_succeeds satisfies supplies) fun widths _ ⟨arrives, supplied⟩ => ?_
  exact .pure ⟨arrives, fits continues supplied⟩

private theorem ofSignature_fits {signature : Signature} {tys : List GroundTy} {ty : GroundTy}
    (closed : signature.Closed) (omits : ∀ static ∈ signature.statics, static.Omits aside)
    (admits : signature.Admits reading values tys ty)
    (continues : model.Continues reading values aside) :
    (ofSignature signature).Fits model tys ty := by
  have ruleClosed := ofSignature_closed closed
  have widthsOmit : ∀ width ∈ Ty.widthsAll (signature.inputs ++ signature.outputs),
      width.Omits aside := fun width inside => omits width (List.mem_append_left _ inside)
  refine ⟨?_, ?_, ?_⟩
  · rw [admits.inputs]
    refine List.map_congr_left fun ty inside => ?_
    rw [Ty.denote_eq_ground (ruleClosed.inputs ty inside)]
    refine continues.ground_eq fun width mentioned => widthsOmit width ?_
    exact Ty.mem_widthsAll.mpr ⟨ty, List.mem_append_left _ inside, mentioned⟩
  · rw [admits.output, Ty.denote_eq_ground ruleClosed.output]
    refine continues.ground_eq fun width mentioned => widthsOmit width ?_
    obtain ⟨ty, inside, mentioned⟩ := Ty.mem_widthsAll.mp (Ty.widths_ofOutputs mentioned)
    exact Ty.mem_widthsAll.mpr ⟨ty, List.mem_append_right _ inside, mentioned⟩
  · refine (continues.meets_iff fun condition inside => ?_).mpr admits.conditions
    exact omits condition (List.mem_append_right _ inside)

private theorem ofCall_succeeds (span : Source.Span) {node : Ident} {statics : List Static.Expr}
    {signature : Signature} {tys : List GroundTy} {ty : GroundTy}
    (kinds : ∀ static ∈ statics, static.HasKind .int)
    (instantiated : checker.catalog.instantiate node.name statics = .ok signature)
    (closed : signature.Closed) (omits : ∀ static ∈ signature.statics, static.Omits aside)
    (admits : signature.Admits reading values tys ty)
    (continues : model.Continues reading values aside)
    (satisfies : model.Satisfies checker.toUnification) :
    Ends (ofCall span node statics) checker (fun rule next =>
      Arrives model checker 0 0 next ∧ rule.Fits model tys ty) Never := by
  refine .after (expectKinds_run kinds checker) (.after rfl ?_)
  rw [instantiated]
  exact .pure ⟨.refl satisfies, ofSignature_fits closed omits admits continues⟩

/-- The right number of arguments passes, and the state stays as it is. -/
theorem expectArity_run {span : Source.Span} {rule : Rule} {count : Nat}
    (same : count = rule.inputs.length) :
    rule.expectArity span count checker = .ok () checker := by
  rw [expectArity, if_pos same]
  rfl

private theorem demand_succeeds {rule : Rule} (satisfies : model.Satisfies checker.toUnification)
    (met : model.Meets rule.conditions) :
    Ends rule.demand checker (fun _ next => Arrives model checker 0 0 next) Never :=
  .of_ok (forM_emit_run rule.conditions checker)
    ⟨⟨satisfies.respects, Static.allHold_append.mpr ⟨satisfies.meets, met⟩⟩, rfl, rfl⟩

end Rule

/-! ## Expressions -/

namespace Env

/-- The types in scope denote the scope of the rules under a model of the state. -/
structure Situated (env : Env) (model : Model) (catalog : Catalog) (scope : Bindings GroundTy)
    (checker : Checker) : Prop where
  wellFormed : checker.types.WellFormed
  known : checker.catalog = catalog
  owned : env.Over checker.types
  scope : env.map (Ty.denote model) = scope
  satisfies : model.Satisfies checker.toUnification

variable {env : Env} {scope : Bindings GroundTy}

/-- What is true of the scope in a model stays true while the state grows. -/
theorem Situated.later {widths tys : Nat} (situated : env.Situated model catalog scope checker)
    (wellFormed : next.types.WellFormed) (grows : checker.Grows next)
    (arrives : Arrives model checker widths tys next) :
    env.Situated model catalog scope next where
  wellFormed := wellFormed
  known := grows.catalog.trans situated.known
  owned := situated.owned.later grows.types
  scope := situated.scope
  satisfies := arrives.satisfies

/-- There are values for the widths that inference will generate, with which it gives the
expression this type. -/
def Inferable (reading : Reading) (values : Valuation) (aside : String → Prop) (catalog : Catalog)
    (scope : Bindings GroundTy) (expr : Circuit.Expr) (ty : GroundTy) : Prop :=
  ∃ widths : List Int, ∀ {env : Env} {model : Model} {checker : Checker},
    model.Continues reading values aside → env.Situated model catalog scope checker →
    model.SuppliesWidths checker widths →
    Ends (env.infer expr) checker (fun typed next =>
      Arrives model checker widths.length 0 next ∧ typed.ty.denote model = ty) Never

private theorem inferAll_succeeds (closed : catalog.Closed) {args : List Circuit.Expr}
    {tys : List GroundTy}
    (inferable : List.Forall₂ (Inferable reading values aside catalog scope) args tys) :
    ∃ widths : List Int, ∀ {env : Env} {model : Model} {checker : Checker} {expected : List Ty},
      model.Continues reading values aside → env.Situated model catalog scope checker →
      model.SuppliesWidths checker widths → (∀ ty ∈ expected, ty.vars = []) →
      expected.map (Ty.denote model) = tys →
      Ends (env.inferAll args expected) checker (fun _ next =>
        Arrives model checker widths.length 0 next) Never := by
  induction inferable with
  | nil =>
      refine ⟨[], fun {env model checker expected} _ situated _ _ same => ?_⟩
      obtain rfl := List.map_eq_nil_iff.mp same
      exact .pure (.refl situated.satisfies)
  | @cons arg ty args tys head _ ih =>
      obtain ⟨headWidths, headEnds⟩ := head
      obtain ⟨tailWidths, tailEnds⟩ := ih
      refine ⟨headWidths ++ tailWidths, ?_⟩
      intro env model checker expected continues situated supplies expectedClosed same
      obtain ⟨first, rest, rfl, firstSame, restSame⟩ := List.map_eq_cons_iff.mp same
      obtain ⟨firstClosed, restClosed⟩ := List.forall_mem_cons.mp expectedClosed
      rw [inferAll]
      refine (infer_checks closed arg situated.wellFormed situated.known situated.owned).succeeding
        (headEnds continues situated (supplies_append.mp supplies).1) ?_
      intro typed inferred wellFormed inferGrows infers succeeded
      obtain ⟨inferArrives, denotes⟩ := succeeded
      have expectedOver : first.Over inferred.types := .of_closed firstClosed
      refine (unifyAt_checks arg.span wellFormed infers.owned.ty_over expectedOver).succeeding
        (unifyAt_succeeds arg.span wellFormed infers.owned.ty_over expectedOver
          inferArrives.satisfies (denotes.trans firstSame.symm)) ?_
      intro _ unified wellFormed unifyGrows _ unifyArrives
      have grows := inferGrows.trans unifyGrows
      have arrives := inferArrives.trans unifyArrives
      refine .bind (tailEnds continues (situated.later wellFormed grows arrives)
        (supplies.rest grows arrives) restClosed restSame) fun typedArgs last restArrives => ?_
      have total := arrives.trans restArrives
      exact .pure (by simpa using total)

private theorem arguments_succeed (ty : GroundTy) (closed : catalog.Closed)
    {args : List Circuit.Expr} {tys : List GroundTy}
    (inferable : List.Forall₂ (Inferable reading values aside catalog scope) args tys) :
    ∃ widths : List Int, ∀ {env : Env} {model : Model} {checker : Checker} {rule : Rule}
      {finish : List Typed.Expr → Typed.Expr} (span : Source.Span),
      model.Continues reading values aside → env.Situated model catalog scope checker →
      model.SuppliesWidths checker widths → rule.Closed → rule.Fits model tys ty →
      Ends (do
          rule.expectArity span args.length
          let typedArgs ← env.inferAll args rule.inputs
          rule.demand
          pure (finish typedArgs)) checker
        (fun typed next => Arrives model checker widths.length 0 next ∧
          ∃ typedArgs, typed = finish typedArgs) Never := by
  obtain ⟨widths, argsEnd⟩ := inferAll_succeeds closed inferable
  refine ⟨widths, fun {env model checker rule finish} span continues situated supplies
    ruleClosed fits => ?_⟩
  have arity : args.length = rule.inputs.length := by
    rw [inferable.length_eq, ← fits.inputs, List.length_map]
  refine .after (Rule.expectArity_run arity) ?_
  refine .bind (argsEnd continues situated supplies ruleClosed.inputs fits.inputs)
    fun typedArgs _ arrives => ?_
  refine .bind (Rule.demand_succeeds arrives.satisfies fits.conditions) fun _ _ demanded => ?_
  exact .pure ⟨arrives.trans demanded, typedArgs, rfl⟩

/-- A wire in scope is found, and the state stays as it is. -/
theorem typeOf_run {id : Ident} {ty : Ty} (bound : env.get? id.name = some ty) :
    env.typeOf id checker = .ok ty checker := by
  rw [typeOf, bound]
  rfl

/-- A wire that is well typed in the scope of the model is in scope, with this type. -/
theorem Situated.bound (situated : env.Situated model catalog scope checker) {name : String}
    {ground : GroundTy} (bound : scope.get? name = some ground) :
    ∃ ty, env.get? name = some ty ∧ ty.denote model = ground := by
  rw [← situated.scope, Bindings.get?_map] at bound
  exact Option.map_eq_some_iff.mp bound

private theorem inferable_apply (closed : catalog.Closed) {span : Source.Span} {operator : Operator}
    {args : List Circuit.Expr} {tys : List GroundTy} {ty : GroundTy}
    (admits : operator.Admits reading values tys ty)
    (omits : ∀ static ∈ operator.statics, static.Omits aside)
    (argsInferable : List.Forall₂ (Inferable reading values aside catalog scope) args tys) :
    Inferable reading values aside catalog scope (.apply span operator args) ty := by
  obtain ⟨ruleWidths, ruleEnds⟩ := Rule.ofOperator_succeeds admits omits
  obtain ⟨argWidths, argsEnd⟩ := arguments_succeed ty closed argsInferable
  refine ⟨ruleWidths ++ argWidths, fun {env model checker} continues situated supplies => ?_⟩
  rw [infer]
  refine (Rule.ofOperator_checks span operator situated.wellFormed).succeeding
    (ruleEnds span continues situated.satisfies (supplies_append.mp supplies).1) ?_
  intro rule middle wellFormed grows checked succeeded
  obtain ⟨ruleClosed, _⟩ := checked
  obtain ⟨arrives, fits⟩ := succeeded
  refine (argsEnd span continues (situated.later wellFormed grows arrives)
    (supplies.rest grows arrives) ruleClosed fits).never ?_
  intro typed last succeeded
  obtain ⟨argsArrive, typedArgs, rfl⟩ := succeeded
  have total := arrives.trans argsArrive
  exact ⟨by simpa using total, fits.output⟩

private theorem inferable_call (closed : catalog.Closed) (known : catalog.Omits aside)
    {span : Source.Span} {node : Ident} {statics : List Static.Expr} {args : List Circuit.Expr}
    {tys : List GroundTy} {ty : GroundTy} {signature : Signature}
    (kinds : ∀ static ∈ statics, static.HasKind .int)
    (instantiated : catalog.instantiate node.name statics = .ok signature)
    (admits : signature.Admits reading values tys ty)
    (omits : ∀ static ∈ statics, static.Omits aside)
    (argsInferable : List.Forall₂ (Inferable reading values aside catalog scope) args tys) :
    Inferable reading values aside catalog scope (.call span node statics args) ty := by
  obtain ⟨argWidths, argsEnd⟩ := arguments_succeed ty closed argsInferable
  refine ⟨argWidths, fun {env model checker} continues situated supplies => ?_⟩
  obtain rfl := situated.known
  rw [infer]
  refine (Rule.ofCall_checks span node statics situated.wellFormed closed).succeeding
    (Rule.ofCall_succeeds span kinds instantiated (closed.instantiate instantiated)
      (known.instantiate omits instantiated) admits continues situated.satisfies) ?_
  intro rule middle wellFormed grows checked succeeded
  obtain ⟨ruleClosed, _⟩ := checked
  obtain ⟨arrives, fits⟩ := succeeded
  refine (argsEnd span continues (situated.later wellFormed grows arrives)
    (supplies.later grows arrives) ruleClosed fits).never ?_
  intro typed last succeeded
  obtain ⟨argsArrive, typedArgs, rfl⟩ := succeeded
  have total := arrives.trans argsArrive
  exact ⟨by simpa using total, fits.output⟩

/-- Expressions that are well typed by the rules are inferred to have their types. -/
theorem infer_succeeds (closed : catalog.Closed) (known : catalog.Omits aside)
    (expr : Circuit.Expr) : ∀ {ty : GroundTy}, expr.HasType reading values catalog scope ty →
      (∀ static ∈ expr.statics, static.Omits aside) →
        Inferable reading values aside catalog scope expr ty := by
  have inferArgs : ∀ {args : List Circuit.Expr} {tys : List GroundTy},
      (∀ arg ∈ args, ∀ {ty : GroundTy}, arg.HasType reading values catalog scope ty →
        (∀ static ∈ arg.statics, static.Omits aside) →
          Inferable reading values aside catalog scope arg ty) →
      List.Forall₂ (Circuit.Expr.HasType reading values catalog scope) args tys →
      (∀ static ∈ Expr.staticsAll args, static.Omits aside) →
        List.Forall₂ (Inferable reading values aside catalog scope) args tys := by
    intro args tys each typed omits
    refine forall₂_imp_of_mem typed fun arg inside ty argTyped => ?_
    refine each arg inside argTyped fun static written => ?_
    exact omits static (Expr.mem_staticsAll.mpr ⟨arg, inside, written⟩)
  induction expr with
  | const span value =>
      intro ty typed _
      cases typed
      refine ⟨[], fun {env model checker} _ situated _ => ?_⟩
      rw [infer]
      exact .pure ⟨.refl situated.satisfies, value.denote_ty model⟩
  | wire span id =>
      intro ty typed _
      cases typed with
      | wire bound =>
          refine ⟨[], fun {env model checker} _ situated _ => ?_⟩
          obtain ⟨inScope, found, denotes⟩ := situated.bound bound
          rw [infer]
          exact .after (typeOf_run found) (.pure ⟨.refl situated.satisfies, denotes⟩)
  | apply span operator args ih =>
      intro ty typed omits
      obtain ⟨operatorOmits, argsOmit⟩ := List.forall_mem_append.mp omits
      cases typed with
      | apply typed admits =>
          exact inferable_apply closed admits operatorOmits (inferArgs ih typed argsOmit)
  | call span node statics args ih =>
      intro ty typed omits
      obtain ⟨staticsOmit, argsOmit⟩ := List.forall_mem_append.mp omits
      cases typed with
      | call kinds instantiated typed admits =>
          exact inferable_call closed known kinds instantiated admits staticsOmit
            (inferArgs ih typed argsOmit)

end Env

end CircuitWidths
