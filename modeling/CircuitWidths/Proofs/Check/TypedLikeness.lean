import CircuitWidths.Proofs.Check.Resolved
import CircuitWidths.Proofs.Check.TypedTys

/-!
# Typed circuits that differ in types only

Two typed circuits may be the same but for their types, which are related at every place.  Resolving
is an example: each type of the resolved circuit is the resolved form of the type that stood there
before (`Typed.Block.resolve_like`).
-/

namespace CircuitWidths

open Circuit TypeStore

/-- Signatures with the same parameters, related types and related conditions. -/
structure Signature.Like (tys : Ty → Ty → Prop) (conditions : Static.Expr → Static.Expr → Prop)
    (signature other : Signature) : Prop where
  inputs : List.Forall₂ tys signature.inputs other.inputs
  outputs : List.Forall₂ tys signature.outputs other.outputs
  params : signature.params = other.params
  constraints : List.Forall₂ conditions signature.constraints other.constraints

namespace Typed

variable {tys others : Ty → Ty → Prop}

/-- The expressions are the same but for their types, which are related. -/
inductive Expr.Like (tys : Ty → Ty → Prop) : Typed.Expr → Typed.Expr → Prop
  | const {span : Source.Span} {ty other : Ty} {value : Literal} (types : tys ty other) :
      Like tys (.const span ty value) (.const span other value)
  | wire {span : Source.Span} {ty other : Ty} {name : String} (types : tys ty other) :
      Like tys (.wire span ty name) (.wire span other name)
  | apply {span : Source.Span} {ty other : Ty} {operator : Operator}
      {args otherArgs : List Typed.Expr} (types : tys ty other)
      (each : List.Forall₂ (Like tys) args otherArgs) :
      Like tys (.apply span ty operator args) (.apply span other operator otherArgs)
  | call {span : Source.Span} {ty other : Ty} {node : String} {statics : List Static.Expr}
      {args otherArgs : List Typed.Expr} (types : tys ty other)
      (each : List.Forall₂ (Like tys) args otherArgs) :
      Like tys (.call span ty node statics args) (.call span other node statics otherArgs)

/-- Wires of the same name with related types. -/
structure Wire.Like (tys : Ty → Ty → Prop) (wire other : Wire) : Prop where
  id : wire.id = other.id
  ty : tys wire.ty other.ty

/-- Equations with the same left side, whose values are the same but for their types. -/
structure Equation.Like (tys : Ty → Ty → Prop) (equation other : Typed.Equation) : Prop where
  span : equation.span = other.span
  pattern : equation.pattern = other.pattern
  value : equation.value.Like tys other.value

/-- The bodies are the same but for their types, which are related. -/
inductive Block.Like (tys : Ty → Ty → Prop) : Typed.Block → Typed.Block → Prop
  | system {span : Source.Span} {wires otherWires : List Wire}
      {equations otherEquations : List Typed.Equation}
      (wiresLike : List.Forall₂ (Wire.Like tys) wires otherWires)
      (equationsLike : List.Forall₂ (Equation.Like tys) equations otherEquations) :
      Like tys (.system span wires equations) (.system span otherWires otherEquations)
  | choice {span : Source.Span} {condition : Static.Expr}
      {onTrue onFalse otherTrue otherFalse : Typed.Block}
      (first : Like tys onTrue otherTrue) (second : Like tys onFalse otherFalse) :
      Like tys (.choice span condition onTrue onFalse) (.choice span condition otherTrue otherFalse)

/-- The nodes are the same but for their types and conditions, which are related. -/
structure Node.Like (tys : Ty → Ty → Prop) (conditions : Static.Expr → Static.Expr → Prop)
    (node other : Typed.Node) : Prop where
  span : node.span = other.span
  id : node.id = other.id
  params : node.params = other.params
  inputs : List.Forall₂ (Wire.Like tys) node.inputs other.inputs
  outputs : List.Forall₂ (Wire.Like tys) node.outputs other.outputs
  body : node.body.Like tys other.body
  signature : node.signature.Like tys conditions other.signature

/-- Typed expressions that are alike have related types. -/
theorem Expr.Like.ty_like {expr other : Typed.Expr} (like : expr.Like tys other) :
    tys expr.ty other.ty := by
  cases like <;> assumption

/-! ## Weaker relations -/

/-- Likeness of typed expressions is monotone in what relates types. -/
theorem Expr.Like.imp {expr : Typed.Expr} (weaken : ∀ ty other, tys ty other → others ty other) :
    ∀ {other : Typed.Expr}, expr.Like tys other → expr.Like others other := by
  induction expr using Expr.inductionOnArgs with
  | const span ty value =>
      intro other like
      cases like with
      | const types => exact .const (weaken _ _ types)
  | wire span ty name =>
      intro other like
      cases like with
      | wire types => exact .wire (weaken _ _ types)
  | apply span ty operator args ih =>
      intro other like
      cases like with
      | apply types each =>
          exact .apply (weaken _ _ types)
            (forall₂_imp_of_mem each fun arg inside _ argLike => ih arg inside argLike)
  | call span ty node statics args ih =>
      intro other like
      cases like with
      | call types each =>
          exact .call (weaken _ _ types)
            (forall₂_imp_of_mem each fun arg inside _ argLike => ih arg inside argLike)

/-- Likeness of wires is monotone in what relates types. -/
theorem Wire.Like.imp {wire other : Wire} (weaken : ∀ ty other, tys ty other → others ty other)
    (like : wire.Like tys other) : wire.Like others other :=
  ⟨like.id, weaken _ _ like.ty⟩

/-- Likeness of typed equations is monotone in what relates types. -/
theorem Equation.Like.imp {equation other : Typed.Equation}
    (weaken : ∀ ty other, tys ty other → others ty other) (like : equation.Like tys other) :
    equation.Like others other :=
  ⟨like.span, like.pattern, like.value.imp weaken⟩

/-- Likeness of typed bodies is monotone in what relates types. -/
theorem Block.Like.imp {block other : Typed.Block}
    (weaken : ∀ ty other, tys ty other → others ty other) (like : block.Like tys other) :
    block.Like others other := by
  induction like with
  | system wiresLike equationsLike =>
      exact .system (wiresLike.imp fun _ _ wire => wire.imp weaken)
        (equationsLike.imp fun _ _ equation => equation.imp weaken)
  | choice _ _ first second => exact .choice first second

/-! ## Steps on both sides -/

section Squares

variable {steps otherSteps results : Ty → Ty → Prop}
  (commute : ∀ ty other next last, tys ty other → steps ty next → otherSteps other last →
    results next last)

include commute

/-- Steps on the types of two expressions that are alike lead to expressions that are alike. -/
theorem Expr.Like.square {expr : Typed.Expr} : ∀ {other next last : Typed.Expr},
    expr.Like tys other → expr.Like steps next → other.Like otherSteps last →
      next.Like results last := by
  induction expr using Expr.inductionOnArgs with
  | const span ty value =>
      intro other next last like stepped otherStepped
      cases like with
      | const types =>
          cases stepped with
          | const step =>
              cases otherStepped with
              | const otherStep => exact .const (commute _ _ _ _ types step otherStep)
  | wire span ty name =>
      intro other next last like stepped otherStepped
      cases like with
      | wire types =>
          cases stepped with
          | wire step =>
              cases otherStepped with
              | wire otherStep => exact .wire (commute _ _ _ _ types step otherStep)
  | apply span ty operator args ih =>
      intro other next last like stepped otherStepped
      cases like with
      | apply types each =>
          cases stepped with
          | apply step eachStep =>
              cases otherStepped with
              | apply otherStep eachOtherStep =>
                  exact .apply (commute _ _ _ _ types step otherStep)
                    (forall₂_square each eachStep eachOtherStep fun arg inside _ _ _ => ih arg inside)
  | call span ty node statics args ih =>
      intro other next last like stepped otherStepped
      cases like with
      | call types each =>
          cases stepped with
          | call step eachStep =>
              cases otherStepped with
              | call otherStep eachOtherStep =>
                  exact .call (commute _ _ _ _ types step otherStep)
                    (forall₂_square each eachStep eachOtherStep fun arg inside _ _ _ => ih arg inside)

/-- Wires that come from wires that are alike are alike. -/
theorem Wire.Like.square {wire other next last : Wire} (like : wire.Like tys other)
    (stepped : wire.Like steps next) (otherStepped : other.Like otherSteps last) :
    next.Like results last where
  id := stepped.id.symm.trans (like.id.trans otherStepped.id)
  ty := commute _ _ _ _ like.ty stepped.ty otherStepped.ty

private theorem Equation.Like.square {equation other next last : Typed.Equation}
    (like : equation.Like tys other) (stepped : equation.Like steps next)
    (otherStepped : other.Like otherSteps last) : next.Like results last where
  span := stepped.span.symm.trans (like.span.trans otherStepped.span)
  pattern := stepped.pattern.symm.trans (like.pattern.trans otherStepped.pattern)
  value := like.value.square commute stepped.value otherStepped.value

/-- Typed bodies that come from bodies that are alike are alike. -/
theorem Block.Like.square {block other : Typed.Block} (like : block.Like tys other) :
    ∀ {next last : Typed.Block}, block.Like steps next → other.Like otherSteps last →
      next.Like results last := by
  induction like with
  | system wiresLike equationsLike =>
      intro next last stepped otherStepped
      cases stepped with
      | system wiresStep equationsStep =>
          cases otherStepped with
          | system otherWiresStep otherEquationsStep =>
              exact .system
                (forall₂_square wiresLike wiresStep otherWiresStep
                  fun _ _ _ _ _ wire => wire.square commute)
                (forall₂_square equationsLike equationsStep otherEquationsStep
                  fun _ _ _ _ _ equation => equation.square commute)
  | choice _ _ ihTrue ihFalse =>
      intro next last stepped otherStepped
      cases stepped with
      | choice firstStep secondStep =>
          cases otherStepped with
          | choice otherFirstStep otherSecondStep =>
              exact .choice (ihTrue firstStep otherFirstStep) (ihFalse secondStep otherSecondStep)

end Squares

/-! ## Resolving -/

variable {store current : TypeStore}

private theorem resolveTy_like {ty : Ty} (wellFormed : store.WellFormed) (owned : ty.Over store)
    (shortened : Shortened store current) :
    Ends (TypeStore.resolve ty) current
      (fun resolved next => Shortened store next ∧ store.Resolves ty resolved) Never := by
  apply (TypeStore.resolve_ends (shortened.wellFormed wellFormed)
    (shortened.over_iff.mpr owned)).never
  rintro resolved next ⟨more, resolves⟩
  exact ⟨shortened.trans more, shortened.resolves resolves⟩

namespace Expr

private theorem resolve_like {typed : Typed.Expr} (wellFormed : store.WellFormed)
    (owned : typed.Over store) : ∀ {current : TypeStore}, Shortened store current →
      Ends typed.resolve current
        (fun resolved next => Shortened store next ∧ typed.Like store.Resolves resolved) Never := by
  induction owned with
  | const owned =>
      intro current shortened
      apply Ends.bind (resolveTy_like wellFormed owned shortened)
      rintro ty next ⟨shortened, resolves⟩
      exact .pure ⟨shortened, .const resolves⟩
  | wire owned =>
      intro current shortened
      apply Ends.bind (resolveTy_like wellFormed owned shortened)
      rintro ty next ⟨shortened, resolves⟩
      exact .pure ⟨shortened, .wire resolves⟩
  | apply owned _ ih =>
      intro current shortened
      rw [Expr.resolve, resolveAll_eq_mapM]
      apply Ends.bind (resolveTy_like wellFormed owned shortened)
      rintro ty next ⟨shortened, resolves⟩
      apply Ends.bind (Ends.mapM (fun arg inside _ => ih arg inside) next shortened)
      rintro args last ⟨shortened, each⟩
      exact .pure ⟨shortened, .apply resolves each⟩
  | call owned _ ih =>
      intro current shortened
      rw [Expr.resolve, resolveAll_eq_mapM]
      apply Ends.bind (resolveTy_like wellFormed owned shortened)
      rintro ty next ⟨shortened, resolves⟩
      apply Ends.bind (Ends.mapM (fun arg inside _ => ih arg inside) next shortened)
      rintro args last ⟨shortened, each⟩
      exact .pure ⟨shortened, .call resolves each⟩

end Expr

/-- Following links in a wire always succeeds and gives the resolved form of its type. -/
theorem Wire.resolve_like {wire : Wire} (wellFormed : store.WellFormed)
    (owned : wire.ty.Over store) (shortened : Shortened store current) :
    Ends wire.resolve current
      (fun resolved next => Shortened store next ∧ wire.Like store.Resolves resolved) Never := by
  apply Ends.bind (resolveTy_like wellFormed owned shortened)
  rintro ty next ⟨shortened, resolves⟩
  exact .pure ⟨shortened, rfl, resolves⟩

/-- Resolving a body puts the resolved form of each type in its place. -/
theorem Block.resolve_like {typed : Typed.Block} (wellFormed : store.WellFormed)
    (owned : typed.Over store) : ∀ {current : TypeStore}, Shortened store current →
      Ends typed.resolve current
        (fun resolved next => Shortened store next ∧ typed.Like store.Resolves resolved) Never := by
  induction owned with
  | @system span wires equations wiresOver valuesOver =>
      intro current shortened
      have equationEnds : ∀ equation ∈ equations, ∀ current, Shortened store current →
          Ends equation.resolve current (fun resolved next => Shortened store next ∧
            equation.Like store.Resolves resolved) Never := by
        intro equation inside current shortened
        apply Ends.bind (Expr.resolve_like wellFormed (valuesOver equation inside) shortened)
        rintro value next ⟨shortened, like⟩
        exact .pure ⟨shortened, rfl, rfl, like⟩
      apply Ends.bind (Ends.mapM (fun wire inside _ shortened =>
        Wire.resolve_like wellFormed (wiresOver wire inside) shortened) current shortened)
      rintro resolvedWires next ⟨shortened, wiresLike⟩
      apply Ends.bind (Ends.mapM equationEnds next shortened)
      rintro resolvedEquations last ⟨shortened, equationsLike⟩
      exact .pure ⟨shortened, .system wiresLike equationsLike⟩
  | choice _ _ ihTrue ihFalse =>
      intro current shortened
      apply Ends.bind (ihTrue shortened)
      rintro resolvedTrue next ⟨shortened, first⟩
      apply Ends.bind (ihFalse shortened)
      rintro resolvedFalse last ⟨shortened, second⟩
      exact .pure ⟨shortened, .choice first second⟩

end Typed

end CircuitWidths
