import CircuitWidths.Proofs.Check.Rules
import CircuitWidths.Proofs.Ty.Later

/-!
# Resolving typed circuits

Following the links in all types of a typed circuit does not change what it is a typed form of:
under a model that agrees with the links every type denotes the same ground type as before.
-/

namespace CircuitWidths

open TypeStore Circuit

variable {store next : TypeStore} {model : Model}

namespace Typed

/-- All type variables in the typed expression were made by the store. -/
inductive Expr.Over (store : TypeStore) : Typed.Expr → Prop
  | const {span : Source.Span} {ty : Ty} {value : Literal} (owned : ty.Over store) :
      Over store (.const span ty value)
  | wire {span : Source.Span} {ty : Ty} {name : String} (owned : ty.Over store) :
      Over store (.wire span ty name)
  | apply {span : Source.Span} {ty : Ty} {operator : Operator} {args : List Typed.Expr}
      (owned : ty.Over store) (inside : ∀ arg ∈ args, Over store arg) :
      Over store (.apply span ty operator args)
  | call {span : Source.Span} {ty : Ty} {node : String} {statics : List Static.Expr}
      {args : List Typed.Expr} (owned : ty.Over store) (inside : ∀ arg ∈ args, Over store arg) :
      Over store (.call span ty node statics args)

/-- All type variables in the typed body were made by the store. -/
inductive Block.Over (store : TypeStore) : Typed.Block → Prop
  | system {span : Source.Span} {wires : List Wire} {equations : List Typed.Equation}
      (wiresOver : ∀ wire ∈ wires, wire.ty.Over store)
      (valuesOver : ∀ equation ∈ equations, equation.value.Over store) :
      Over store (.system span wires equations)
  | choice {span : Source.Span} {condition : Static.Expr} {onTrue onFalse : Typed.Block}
      (first : Over store onTrue) (second : Over store onFalse) :
      Over store (.choice span condition onTrue onFalse)

/-- The type of a typed expression over a store is over the store. -/
theorem Expr.Over.ty_over {typed : Typed.Expr} (owned : typed.Over store) :
    typed.ty.Over store := by
  cases owned <;> assumption

/-- A typed expression over a store is over every later one. -/
theorem Expr.Over.later {typed : Typed.Expr} (precedes : store.Precedes next)
    (owned : typed.Over store) : typed.Over next := by
  induction owned with
  | const owned => exact .const (precedes.owned owned)
  | wire owned => exact .wire (precedes.owned owned)
  | apply owned _ ih => exact .apply (precedes.owned owned) ih
  | call owned _ ih => exact .call (precedes.owned owned) ih

/-- A typed body over a store is over every later one. -/
theorem Block.Over.later {typed : Typed.Block} (precedes : store.Precedes next)
    (owned : typed.Over store) : typed.Over next := by
  induction owned with
  | system wiresOver valuesOver =>
      exact .system (fun wire inside => precedes.owned (wiresOver wire inside))
        fun equation inside => (valuesOver equation inside).later precedes
  | choice _ _ first second => exact .choice first second

/-- The second expression is a typed form of whatever the first is one of, with the same type. -/
structure Expr.RefinedBy (model : Model) (typed resolved : Typed.Expr) : Prop where
  ty : resolved.ty.denote model = typed.ty.denote model
  elaborates : ∀ {catalog : Catalog} {scope : Bindings GroundTy} {source : Circuit.Expr},
    source.Elaborates model catalog scope typed → source.Elaborates model catalog scope resolved

/-- The second body is a typed form of whatever the first is one of. -/
def Block.RefinedBy (model : Model) (typed resolved : Typed.Block) : Prop :=
  ∀ {catalog : Catalog} {scope : Bindings Ty} {source : Circuit.Block},
    source.Elaborates model catalog scope typed → source.Elaborates model catalog scope resolved

private theorem resolveTy_ends {ty : Ty} {current : TypeStore} (wellFormed : store.WellFormed)
    (owned : ty.Over store) (shortened : Shortened store current) :
    Ends (TypeStore.resolve ty) current
      (fun resolved next => Shortened store next ∧
        ∀ model : Model, model.Respects store → resolved.denote model = ty.denote model) Never :=
  (TypeStore.resolve_ends (shortened.wellFormed wellFormed) (shortened.over_iff.mpr owned)).never
    fun _ _ ⟨more, resolves⟩ => ⟨shortened.trans more, fun _ respects =>
      (resolves.denote_eq (shortened.respects_iff.mpr respects)).symm⟩

namespace Expr

/-- Links are followed in one expression after another. -/
theorem resolveAll_eq_mapM (exprs : List Typed.Expr) : resolveAll exprs = exprs.mapM resolve := by
  induction exprs with
  | nil => rfl
  | cons expr exprs ih => rw [resolveAll, ih, List.mapM_cons]

private theorem RefinedBy.map_denote {typed resolved : List Typed.Expr}
    (refined : List.Forall₂ (RefinedBy model) typed resolved) :
    (resolved.map fun arg => arg.ty.denote model) = typed.map fun arg => arg.ty.denote model :=
  (map_eq_map_of_forall₂ refined fun _ _ each => each.ty.symm).symm

private theorem RefinedBy.all {catalog : Catalog} {scope : Bindings GroundTy}
    {sources : List Circuit.Expr} {typed resolved : List Typed.Expr}
    (elaborates : List.Forall₂ (Circuit.Expr.Elaborates model catalog scope) sources typed)
    (refined : List.Forall₂ (RefinedBy model) typed resolved) :
    List.Forall₂ (Circuit.Expr.Elaborates model catalog scope) sources resolved :=
  forall₂_compose elaborates refined fun _ _ _ first second => second.elaborates first

private theorem resolve_ends {typed : Typed.Expr} (wellFormed : store.WellFormed)
    (owned : typed.Over store) : ∀ {current : TypeStore}, Shortened store current →
    Ends typed.resolve current
      (fun resolved next => Shortened store next ∧
        ∀ model : Model, model.Respects store → typed.RefinedBy model resolved) Never := by
  have resolveArgs : ∀ {args : List Typed.Expr},
      (∀ arg ∈ args, ∀ {current : TypeStore}, Shortened store current →
        Ends arg.resolve current
          (fun resolved next => Shortened store next ∧
            ∀ model : Model, model.Respects store → arg.RefinedBy model resolved) Never) →
      ∀ {current : TypeStore}, Shortened store current → Ends (resolveAll args) current
        (fun resolved next => Shortened store next ∧ ∀ model : Model, model.Respects store →
          List.Forall₂ (RefinedBy model) args resolved) Never := by
    intro args each current shortened
    rw [resolveAll_eq_mapM]
    refine (Ends.mapM (fun arg inside middle shortened => each arg inside shortened)
      current shortened).never fun results next ⟨shortened, refined⟩ => ⟨shortened, ?_⟩
    exact fun model respects => refined.imp fun _ _ each => each model respects
  induction owned with
  | const owned =>
      intro current shortened
      refine .bind (resolveTy_ends wellFormed owned shortened) fun ty next ⟨shortened, same⟩ => ?_
      refine .pure ⟨shortened, fun model respects => ⟨same model respects, fun elaborates => ?_⟩⟩
      cases elaborates with
      | const denotes => exact .const ((same model respects).trans denotes)
  | wire owned =>
      intro current shortened
      refine .bind (resolveTy_ends wellFormed owned shortened) fun ty next ⟨shortened, same⟩ => ?_
      refine .pure ⟨shortened, fun model respects => ⟨same model respects, fun elaborates => ?_⟩⟩
      cases elaborates with
      | wire bound => exact .wire (by rw [same model respects, bound])
  | apply owned _ ih =>
      intro current shortened
      refine .bind (resolveTy_ends wellFormed owned shortened) fun ty next ⟨shortened, same⟩ => ?_
      refine .bind (resolveArgs ih shortened) fun resolved next ⟨shortened, refined⟩ => ?_
      refine .pure ⟨shortened, fun model respects => ⟨same model respects, fun elaborates => ?_⟩⟩
      have argsRefined := refined model respects
      cases elaborates with
      | apply typed admits =>
          refine .apply (RefinedBy.all typed argsRefined) ?_
          rw [RefinedBy.map_denote argsRefined, same model respects]
          exact admits
  | call owned _ ih =>
      intro current shortened
      refine .bind (resolveTy_ends wellFormed owned shortened) fun ty next ⟨shortened, same⟩ => ?_
      refine .bind (resolveArgs ih shortened) fun resolved next ⟨shortened, refined⟩ => ?_
      refine .pure ⟨shortened, fun model respects => ⟨same model respects, fun elaborates => ?_⟩⟩
      have argsRefined := refined model respects
      cases elaborates with
      | call kinds instantiated typed admits =>
          refine .call kinds instantiated (RefinedBy.all typed argsRefined) ?_
          rw [RefinedBy.map_denote argsRefined, same model respects]
          exact admits

end Expr

/-- The second wire has the name of the first and a type that denotes the same. -/
structure Wire.RefinedBy (model : Model) (typed resolved : Wire) : Prop where
  id : resolved.id = typed.id
  ty : resolved.ty.denote model = typed.ty.denote model

private theorem Wire.resolve_ends {wire : Wire} {current : TypeStore}
    (wellFormed : store.WellFormed) (owned : wire.ty.Over store)
    (shortened : Shortened store current) :
    Ends wire.resolve current
      (fun resolved next => Shortened store next ∧
        ∀ model : Model, model.Respects store → wire.RefinedBy model resolved) Never :=
  .bind (resolveTy_ends wellFormed owned shortened) fun _ _ ⟨shortened, same⟩ =>
    .pure ⟨shortened, fun model respects => ⟨rfl, same model respects⟩⟩

/-- The second equation has the left side of the first and refines its value. -/
structure Equation.RefinedBy (model : Model) (typed resolved : Typed.Equation) : Prop where
  span : resolved.span = typed.span
  pattern : resolved.pattern = typed.pattern
  value : typed.value.RefinedBy model resolved.value

private theorem Equation.RefinedBy.elaborates {catalog : Catalog} {scope : Bindings GroundTy}
    {source : Circuit.Equation} {typed resolved : Typed.Equation}
    (refined : typed.RefinedBy model resolved) (elaborates : source.Elaborates model catalog scope typed) :
    source.Elaborates model catalog scope resolved where
  span := refined.span.trans elaborates.span
  pattern := refined.pattern.trans elaborates.pattern
  value := refined.value.elaborates elaborates.value
  sides := by
    rw [refined.value.ty]
    exact elaborates.sides

private theorem Wire.RefinedBy.elaborates {source : Local} {typed resolved : Wire}
    (refined : typed.RefinedBy model resolved) (elaborates : source.Elaborates model typed) :
    source.Elaborates model resolved where
  id := refined.id.trans elaborates.id
  admits := by
    rw [refined.ty]
    exact elaborates.admits

/-- Following the links in a typed body always succeeds and refines its types in every model. -/
theorem Block.resolve_ends {typed : Typed.Block} (wellFormed : store.WellFormed)
    (owned : typed.Over store) : ∀ {current : TypeStore}, Shortened store current →
    Ends typed.resolve current
      (fun resolved next => Shortened store next ∧
        ∀ model : Model, model.Respects store → typed.RefinedBy model resolved) Never := by
  induction owned with
  | @system span wires equations wiresOver valuesOver =>
      intro current shortened
      have wireEnds : ∀ wire ∈ wires, ∀ current, Shortened store current →
          Ends wire.resolve current (fun resolved next => Shortened store next ∧
            ∀ model : Model, model.Respects store → wire.RefinedBy model resolved) Never :=
        fun wire inside current shortened =>
          wire.resolve_ends wellFormed (wiresOver wire inside) shortened
      have equationEnds : ∀ equation ∈ equations, ∀ current, Shortened store current →
          Ends equation.resolve current (fun resolved next => Shortened store next ∧
            ∀ model : Model, model.Respects store → equation.RefinedBy model resolved) Never :=
        fun equation inside current shortened =>
          .bind (Expr.resolve_ends wellFormed (valuesOver equation inside) shortened)
            fun _ _ ⟨shortened, refined⟩ =>
              .pure ⟨shortened, fun model respects => ⟨rfl, rfl, refined model respects⟩⟩
      refine .bind (Ends.mapM wireEnds _ shortened) fun resolvedWires _ ⟨shortened, wires⟩ => ?_
      refine .bind (Ends.mapM equationEnds _ shortened)
        fun resolvedEquations _ ⟨shortened, equations⟩ => ?_
      refine .pure ⟨shortened, fun model respects catalog scope source elaborates => ?_⟩
      have wiresRefined := wires.imp fun _ _ each => each model respects
      have equationsRefined := equations.imp fun _ _ each => each model respects
      cases elaborates with
      | system annotated all =>
          refine .system (forall₂_compose annotated wiresRefined
            fun _ _ _ first second => second.elaborates first) ?_
          rw [← map_eq_map_of_forall₂ wiresRefined fun _ _ each => each.ty.symm]
          exact forall₂_compose all equationsRefined
            fun _ _ _ first second => second.elaborates first
  | choice _ _ ihTrue ihFalse =>
      intro current shortened
      refine .bind (ihTrue shortened) fun resolvedTrue _ ⟨shortened, refinedTrue⟩ => ?_
      refine .bind (ihFalse shortened) fun resolvedFalse _ ⟨shortened, refinedFalse⟩ => ?_
      refine .pure ⟨shortened, fun model respects catalog scope source elaborates => ?_⟩
      cases elaborates with
      | choice kind first second =>
          exact .choice kind (refinedTrue model respects first) (refinedFalse model respects second)

end Typed

end CircuitWidths
