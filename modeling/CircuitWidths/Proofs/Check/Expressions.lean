import CircuitWidths.Check.Infer
import CircuitWidths.Proofs.Check.Resolved
import CircuitWidths.Proofs.Check.Steps

/-!
# Inferred types obey the rules

The types that are inferred for an expression obey the rules of its operators and calls under
every model of the state in which inference ends, and the conditions of its calls are pending there
(`infer_checks`).
-/

namespace CircuitWidths

open CheckM Circuit

variable {checker next : Checker} {model : Model}

/-- No port type of the signature has type variables. -/
def Signature.Closed (signature : Signature) : Prop :=
  ∀ ty ∈ signature.inputs ++ signature.outputs, ty.vars = []

/-- No known signature has type variables. -/
def Catalog.Closed (catalog : Catalog) : Prop :=
  ∀ name signature, catalog.get? name = some signature → signature.Closed

private theorem Signature.Closed.substitute {signature : Signature} (closed : signature.Closed)
    (bindings : Bindings Static.Expr) : (signature.substitute bindings).Closed := by
  intro ty inside
  simp only [Signature.substitute, Ty.substituteAll_eq_map, ← List.map_append] at inside
  obtain ⟨original, member, rfl⟩ := List.mem_map.mp inside
  rw [Ty.vars_substitute]
  exact closed original member

/-- The signature that a call finds has no type variables. -/
theorem Catalog.Closed.instantiate {catalog : Catalog} (closed : catalog.Closed) {name : String}
    {args : List Static.Expr} {signature : Signature}
    (instantiated : catalog.instantiate name args = .ok signature) : signature.Closed := by
  obtain ⟨original, known, _, rfl⟩ := exists_of_instantiate instantiated
  exact (closed name original known).substitute _

private theorem Ty.ofOutputs_closed {tys : List Ty} (closed : ∀ ty ∈ tys, ty.vars = []) :
    (Ty.ofOutputs tys).vars = [] := by
  unfold Ty.ofOutputs
  split
  · exact closed _ List.mem_cons_self
  · rw [List.eq_nil_iff_forall_not_mem]
    intro id inside
    obtain ⟨ty, member, mentioned⟩ := Ty.mem_vars_product.mp inside
    rw [closed ty member] at mentioned
    cases mentioned

/-- A type without variables is over every store. -/
theorem Ty.Over.of_closed {store : TypeStore} {ty : Ty} (closed : ty.vars = []) :
    ty.Over store := by
  intro id inside
  rw [closed] at inside
  cases inside

private theorem Circuit.Literal.ty_closed (value : Literal) : value.ty.vars = [] := by
  cases value <;> rfl

/-- The type of a constant is the same in all models. -/
theorem Circuit.Literal.denote_ty (model : Model) (value : Literal) :
    value.ty.denote model = value.groundTy := by
  cases value <;> rfl

/-! ## Rules of operators and calls -/

namespace Rule

/-- The types of the rule have no type variables. -/
structure Closed (rule : Rule) : Prop where
  inputs : ∀ ty ∈ rule.inputs, ty.vars = []
  output : rule.output.vars = []

/-- Where its conditions are met, the rule of an operator admits what the operator does. -/
theorem ofOperator_checks (span : Source.Span) (operator : Operator)
    (wellFormed : checker.types.WellFormed) :
    Checks (ofOperator span operator) checker
      (fun rule _ => rule.Closed ∧ ∀ model : Model, model.Meets rule.conditions →
        operator.Admits model.reading model.values (rule.inputs.map (Ty.denote model))
          (rule.output.denote model)) := by
  rw [ofOperator_eq]
  refine .bind (expectKinds_checks span .int operator.statics wellFormed)
    fun _ _ wellFormed _ kinds => ?_
  refine .bind (generate_checks _ wellFormed) fun widths _ wellFormed _ _ => ?_
  obtain ⟨inputs, output⟩ := operator.rule_flat widths
  exact .pure wellFormed ⟨⟨fun ty inside => (inputs ty inside).closed, output.closed⟩,
    fun model met => Operator.rule_admits kinds met⟩

/-- A signature without type variables gives a rule without type variables. -/
theorem ofSignature_closed {signature : Signature} (closed : signature.Closed) :
    (ofSignature signature).Closed where
  inputs := fun ty inside => closed ty (List.mem_append_left _ inside)
  output := Ty.ofOutputs_closed fun ty inside => closed ty (List.mem_append_right _ inside)

private theorem ofSignature_admits {signature : Signature} (closed : signature.Closed)
    (met : model.Meets signature.constraints) :
    signature.Admits model.reading model.values
      ((ofSignature signature).inputs.map (Ty.denote model))
      ((ofSignature signature).output.denote model) where
  inputs := List.map_congr_left fun ty inside =>
    Ty.denote_eq_ground ((ofSignature_closed closed).inputs ty inside)
  conditions := met
  output := Ty.denote_eq_ground (ofSignature_closed closed).output

/-- Where its conditions are met, the rule of a call admits what the signature of the node does. -/
theorem ofCall_checks (span : Source.Span) (node : Ident) (statics : List Static.Expr)
    (wellFormed : checker.types.WellFormed) (closed : checker.catalog.Closed) :
    Checks (ofCall span node statics) checker
      (fun rule _ => rule.Closed ∧ (∀ static ∈ statics, static.HasKind .int) ∧
        ∃ signature, checker.catalog.instantiate node.name statics = .ok signature ∧
          rule.conditions = signature.constraints ∧
          ∀ model : Model, model.Meets rule.conditions →
            signature.Admits model.reading model.values (rule.inputs.map (Ty.denote model))
              (rule.output.denote model)) := by
  refine .bind (expectKinds_checks span .int statics wellFormed)
    fun _ middle wellFormed grows kinds => ?_
  refine .get_bind ?_
  rw [grows.catalog]
  cases outcome : checker.catalog.instantiate node.name statics with
  | ok signature =>
      have signatureClosed := closed.instantiate outcome
      exact .pure wellFormed ⟨ofSignature_closed signatureClosed, kinds, signature, rfl, rfl,
        fun model met => ofSignature_admits signatureClosed met⟩
  | error error =>
      cases error with
      | unboundNode => exact Checks.reject wellFormed
      | paramsArity found expected => exact Checks.reject wellFormed

/-- Inference goes on only with the right number of arguments. -/
theorem expectArity_checks (span : Source.Span) (rule : Rule) (count : Nat)
    (wellFormed : checker.types.WellFormed) :
    Checks (rule.expectArity span count) checker (fun _ _ => count = rule.inputs.length) := by
  unfold expectArity
  split
  · exact .pure wellFormed ‹_›
  · exact Checks.reject wellFormed

/-- Conditions are added behind the pending ones, in order. -/
theorem forM_emit_run (conditions : List Static.Expr) : ∀ checker : Checker,
    conditions.forM emit checker = .ok () { checker with constraints :=
      { checker.constraints with pending := checker.constraints.pending ++ conditions } } := by
  induction conditions with
  | nil =>
      intro checker
      rw [List.append_nil]
      rfl
  | cons condition conditions ih =>
      intro checker
      show conditions.forM emit { checker with constraints := checker.constraints.emit condition } = _
      rw [ih]
      simp [Constraints.emit]

private theorem demand_checks (rule : Rule) (wellFormed : checker.types.WellFormed) :
    Checks rule.demand checker
      (fun _ next => ∀ condition ∈ rule.conditions, condition ∈ next.constraints.pending) :=
  .of_ok (forM_emit_run rule.conditions checker)
    ⟨wellFormed, ⟨.refl _, ⟨rule.conditions, rfl⟩, rfl, rfl⟩,
      fun _ inside => List.mem_append_right _ inside⟩

end Rule

/-! ## Expressions -/

namespace Env

/-- The types in scope have variables of the store only. -/
def Over (store : TypeStore) (env : Env) : Prop :=
  ∀ name ty, env.get? name = some ty → ty.Over store

/-- Types in scope are over every later store. -/
theorem Over.later {env : Env} {store next : TypeStore} (precedes : store.Precedes next)
    (owned : env.Over store) : env.Over next :=
  fun name ty bound => precedes.owned (owned name ty bound)

/-- A wire in scope has the type it is bound to. -/
theorem typeOf_checks (env : Env) (id : Ident) (wellFormed : checker.types.WellFormed) :
    Checks (env.typeOf id) checker (fun ty _ => env.get? id.name = some ty) := by
  unfold typeOf
  cases bound : env.get? id.name with
  | none => exact Checks.reject wellFormed
  | some ty => exact .pure wellFormed rfl

/-- The typed expression is what the expression was inferred to be: its types obey the rules under
every model of the state, and what its calls demand is pending. -/
structure Infers (env : Env) (catalog : Catalog) (expr : Circuit.Expr) (typed : Typed.Expr)
    (checker : Checker) : Prop where
  owned : typed.Over checker.types
  elaborates : ∀ model : Model, model.Satisfies checker.toUnification →
    expr.Elaborates model catalog (env.map (Ty.denote model)) typed
  demanded : catalog.Demanded expr.calls checker.constraints.pending

/-- What was inferred stays true while the state grows. -/
theorem Infers.later {env : Env} {catalog : Catalog} {expr : Circuit.Expr} {typed : Typed.Expr}
    (grows : checker.Grows next) (infers : env.Infers catalog expr typed checker) :
    env.Infers catalog expr typed next where
  owned := infers.owned.later grows.types
  elaborates := fun model satisfies => infers.elaborates model (grows.satisfies satisfies)
  demanded := grows.demanded infers.demanded

/-- Wherever the expression stands, its inferred types obey the rules. -/
def InfersAnywhere (env : Env) (catalog : Catalog) (expr : Circuit.Expr) : Prop :=
  ∀ {checker : Checker}, checker.types.WellFormed → checker.catalog = catalog →
    env.Over checker.types → Checks (env.infer expr) checker (env.Infers catalog expr)

private theorem Infers.forall_over {env : Env} {catalog : Catalog} {args : List Circuit.Expr}
    {typedArgs : List Typed.Expr}
    (infer : List.Forall₂ (fun arg typed => env.Infers catalog arg typed checker) args typedArgs) :
    ∀ typed ∈ typedArgs, typed.Over checker.types := by
  induction infer with
  | nil => simp
  | cons head _ ih => exact List.forall_mem_cons.mpr ⟨head.owned, ih⟩

private theorem Infers.callsAll_demanded {env : Env} {catalog : Catalog} {args : List Circuit.Expr}
    {typedArgs : List Typed.Expr}
    (infer : List.Forall₂ (fun arg typed => env.Infers catalog arg typed checker) args typedArgs) :
    catalog.Demanded (Expr.callsAll args) checker.constraints.pending := by
  induction infer with
  | nil => exact Catalog.demanded_nil
  | cons head _ ih => exact Catalog.demanded_append.mpr ⟨head.demanded, ih⟩

/-- Arguments are inferred one after another and denote what is expected at their places. -/
theorem inferAll_checks {env : Env} {catalog : Catalog} {args : List Circuit.Expr}
    (each : ∀ arg ∈ args, env.InfersAnywhere catalog arg) :
    ∀ {expected : List Ty} {checker : Checker}, args.length = expected.length →
      (∀ ty ∈ expected, ty.vars = []) → checker.types.WellFormed → checker.catalog = catalog →
      env.Over checker.types →
      Checks (env.inferAll args expected) checker (fun typedArgs next =>
        List.Forall₂ (fun arg typed => env.Infers catalog arg typed next) args typedArgs ∧
          ∀ model : Model, model.Satisfies next.toUnification →
            (typedArgs.map fun typed => typed.ty.denote model) =
              expected.map (Ty.denote model)) := by
  induction args with
  | nil =>
      intro expected checker length _ wellFormed _ _
      obtain rfl := List.length_eq_zero_iff.mp length.symm
      exact .pure wellFormed ⟨.nil, fun _ _ => rfl⟩
  | cons arg args ih =>
      intro expected checker length closed wellFormed known envOver
      obtain ⟨first, rest, rfl⟩ := List.exists_cons_of_length_eq_add_one length.symm
      obtain ⟨firstClosed, restClosed⟩ := List.forall_mem_cons.mp closed
      obtain ⟨eachFirst, eachRest⟩ := List.forall_mem_cons.mp each
      rw [inferAll]
      refine .bind (eachFirst wellFormed known envOver)
        fun typed inferred wellFormed inferGrows infers => ?_
      refine .bind (unifyAt_checks arg.span wellFormed infers.owned.ty_over (.of_closed firstClosed))
        fun _ unified wellFormed unifyGrows same => ?_
      have grows := inferGrows.trans unifyGrows
      refine .bind (ih eachRest (by simpa using length) restClosed wellFormed
        (grows.catalog.trans known) (envOver.later grows.types))
        fun typedArgs last wellFormed restGrows reached => ?_
      obtain ⟨argsInfer, argsSame⟩ := reached
      refine .pure wellFormed ⟨.cons (infers.later (unifyGrows.trans restGrows)) argsInfer, ?_⟩
      intro model satisfies
      rw [List.map_cons, List.map_cons, same model (restGrows.satisfies satisfies),
        argsSame model satisfies]

/-- The arguments of an operator or a call meet its rule. -/
theorem arguments_checks {env : Env} {rule : Rule} {args : List Circuit.Expr}
    {finish : List Typed.Expr → Typed.Expr} (span : Source.Span)
    (each : ∀ arg ∈ args, env.InfersAnywhere checker.catalog arg) (closed : rule.Closed)
    (wellFormed : checker.types.WellFormed) (envOver : env.Over checker.types) :
    Checks (do
        rule.expectArity span args.length
        let typedArgs ← env.inferAll args rule.inputs
        rule.demand
        pure (finish typedArgs)) checker
      (fun typed next => ∃ typedArgs, typed = finish typedArgs ∧
        List.Forall₂ (fun arg typed => env.Infers checker.catalog arg typed next) args typedArgs ∧
          (∀ condition ∈ rule.conditions, condition ∈ next.constraints.pending) ∧
          ∀ model : Model, model.Satisfies next.toUnification →
            (typedArgs.map fun typed => typed.ty.denote model) =
              rule.inputs.map (Ty.denote model) ∧ model.Meets rule.conditions) := by
  refine .bind (rule.expectArity_checks span args.length wellFormed)
    fun _ arity wellFormed arityGrows length => ?_
  refine .bind (inferAll_checks each length closed.inputs wellFormed arityGrows.catalog
    (envOver.later arityGrows.types))
    fun typedArgs inferred wellFormed _ ⟨argsInfer, argsSame⟩ => ?_
  refine .bind (rule.demand_checks wellFormed) fun _ last wellFormed demandGrows asked => ?_
  refine .pure wellFormed ⟨typedArgs, rfl, argsInfer.imp fun _ _ infers => infers.later demandGrows,
    asked, fun model satisfies => ⟨argsSame model (demandGrows.satisfies satisfies), ?_⟩⟩
  exact fun condition inside => satisfies.meets condition (asked condition inside)

/-- Inferred types obey the rules in every model of what is known afterwards. -/
theorem infer_checks {env : Env} {catalog : Catalog} (closed : catalog.Closed)
    (expr : Circuit.Expr) : env.InfersAnywhere catalog expr := by
  induction expr with
  | const span value =>
      intro checker wellFormed _ _
      rw [infer]
      exact .pure wellFormed ⟨.const (.of_closed value.ty_closed),
        fun model _ => .const (value.denote_ty model), Catalog.demanded_nil⟩
  | wire span id =>
      intro checker wellFormed _ envOver
      rw [infer]
      refine .bind (typeOf_checks env id wellFormed) fun ty _ wellFormed grows bound => ?_
      refine .pure wellFormed ⟨.wire (grows.types.owned (envOver id.name ty bound)), ?_,
        Catalog.demanded_nil⟩
      exact fun model _ => .wire (by rw [Bindings.get?_map, bound]; rfl)
  | apply span operator args ih =>
      rintro checker wellFormed rfl envOver
      rw [infer]
      refine .bind (Rule.ofOperator_checks span operator wellFormed)
        fun rule middle wellFormed grows ⟨ruleClosed, admits⟩ => ?_
      refine (arguments_checks span (grows.catalog ▸ ih) ruleClosed wellFormed
        (envOver.later grows.types)).imp ?_
      intro typed last _ _ inferred
      obtain ⟨typedArgs, rfl, argsInfer, _, met⟩ := inferred
      rw [grows.catalog] at argsInfer
      refine ⟨.apply (.of_closed ruleClosed.output)
        (Infers.forall_over argsInfer), fun model satisfies => ?_,
        Infers.callsAll_demanded argsInfer⟩
      obtain ⟨same, conditions⟩ := met model satisfies
      refine .apply (argsInfer.imp fun _ _ infers => infers.elaborates model satisfies) ?_
      rw [same]
      exact admits model conditions
  | call span node statics args ih =>
      rintro checker wellFormed rfl envOver
      rw [infer]
      refine .bind (Rule.ofCall_checks span node statics wellFormed closed)
        fun rule middle wellFormed grows
          ⟨ruleClosed, kinds, signature, instantiated, conditions, admits⟩ => ?_
      refine (arguments_checks span (grows.catalog ▸ ih) ruleClosed wellFormed
        (envOver.later grows.types)).imp ?_
      intro typed last _ _ inferred
      obtain ⟨typedArgs, rfl, argsInfer, asked, met⟩ := inferred
      rw [grows.catalog] at argsInfer
      refine ⟨.call (.of_closed ruleClosed.output)
        (Infers.forall_over argsInfer), fun model satisfies => ?_,
        Catalog.demanded_cons.mpr ⟨?_, Infers.callsAll_demanded argsInfer⟩⟩
      · obtain ⟨same, conditions⟩ := met model satisfies
        refine .call kinds instantiated
          (argsInfer.imp fun _ _ infers => infers.elaborates model satisfies) ?_
        rw [same]
        exact admits model conditions
      · rw [Catalog.demands_eq instantiated, ← conditions]
        exact asked

end Env

end CircuitWidths
