import CircuitWidths.Proofs.Check.Bodies
import CircuitWidths.Proofs.Check.Mirror
import CircuitWidths.Proofs.Check.Written

/-!
# Bodies are checked in step

A body whose static expressions keep their names, and that calls known nodes only, is checked in
step in two states that mirror each other (`checkBlock_mirrored`).  The typed forms are alike, and
in each state they have variables of its store only.
-/

namespace CircuitWidths

open CheckM Circuit TypeStore

variable {mirror : Mirror} {checker partner : Checker} {store final : TypeStore}

/-- What is written keeps its names, and the calls are of known nodes. -/
structure Mirror.Reads (mirror : Mirror) (statics : List Static.Expr) (calls : List Call) :
    Prop where
  statics : ∀ static ∈ statics, mirror.Conditions static static
  calls : ∀ call ∈ calls, mirror.known call.node

/-! ## Types -/

namespace Mirror.TysOver

private theorem bit : mirror.TysOver store .bit .bit := .of_closed .bit rfl

private theorem bits {width other : Static.Expr} (renamed : mirror.Conditions width other) :
    mirror.TysOver store (.bits width) (.bits other) :=
  .of_closed (.bits renamed) rfl

private theorem product {members others : List Ty}
    (each : List.Forall₂ (mirror.TysOver store) members others) :
    mirror.TysOver store (.product members) (.product others) where
  like := .product (each.imp fun _ _ types => types.like)
  owned := by
    intro id inside
    obtain ⟨member, found, mentioned⟩ := Ty.mem_vars_product.mp inside
    obtain ⟨_, types⟩ := forall₂_exists_right each found
    exact types.owned id mentioned

private theorem ofOutputs {tys others : List Ty}
    (each : List.Forall₂ (mirror.TysOver store) tys others) :
    mirror.TysOver store (.ofOutputs tys) (.ofOutputs others) := by
  cases each with
  | nil => exact product .nil
  | cons head tail =>
      cases tail with
      | nil => exact head
      | cons next rest => exact product (.cons head (.cons next rest))

/-- A declared type whose static expressions are not renamed mirrors itself. -/
theorem declared {declared : DeclaredTy}
    (fixed : ∀ static ∈ declared.statics, mirror.Conditions static static) :
    mirror.TysOver store declared.toTy declared.toTy := by
  cases declared with
  | bit => exact bit
  | bits width => exact bits (fixed width (by simp [DeclaredTy.statics, DeclaredTy.toTy, Ty.widths]))

end Mirror.TysOver

private theorem Ty.Like.substitute {bindings others : Bindings Static.Expr}
    (bound : Static.BoundAlike mirror.names bindings others) {ty : Ty} :
    ∀ {other : Ty}, mirror.Tys ty other →
      mirror.Tys (ty.substitute bindings) (other.substitute others) := by
  induction ty with
  | unit =>
      intro other like
      cases like
      exact .unit
  | bit =>
      intro other like
      cases like
      exact .bit
  | bits width =>
      intro other like
      cases like with
      | bits widths => exact .bits ((widths.substitute bound).simplify mirror.names_unique)
  | var id =>
      intro other like
      cases like with
      | var paired => exact .var paired
  | product members ih =>
      intro other like
      cases like with
      | product each =>
          rw [Ty.substitute, Ty.substitute, Ty.substituteAll_eq_map, Ty.substituteAll_eq_map]
          apply Ty.Like.product
          rw [List.forall₂_map_left_iff, List.forall₂_map_right_iff]
          exact forall₂_imp_of_mem each fun member inside _ memberLike => ih member inside memberLike

private theorem Mirror.TysOver.substitute {bindings others : Bindings Static.Expr}
    (bound : Static.BoundAlike mirror.names bindings others) {ty other : Ty}
    (types : mirror.TysOver store ty other) :
    mirror.TysOver store (ty.substitute bindings) (other.substitute others) where
  like := types.like.substitute bound
  owned := by
    intro id inside
    rw [Ty.vars_substitute] at inside
    exact types.owned id inside

/-! ## Rules of operators and calls -/

namespace Rule

/-- Rules that ask for and give types that are alike, under renamed conditions. -/
structure Mirrors (mirror : Mirror) (store : TypeStore) (rule other : Rule) : Prop where
  inputs : List.Forall₂ (mirror.TysOver store) rule.inputs other.inputs
  output : mirror.TysOver store rule.output other.output
  conditions : List.Forall₂ mirror.Conditions rule.conditions other.conditions

private theorem Mirrors.within {rule other : Rule} (within : store.Within final)
    (mirrors : rule.Mirrors mirror store other) : rule.Mirrors mirror final other where
  inputs := mirrors.inputs.imp fun _ _ types => within.tysOver types
  output := within.tysOver mirrors.output
  conditions := mirrors.conditions

private theorem rule_mirrors {operator : Operator} {widths others : Nat → Static.Expr}
    (generated : ∀ index, mirror.Conditions (widths index) (others index))
    (fixed : ∀ static ∈ operator.statics, mirror.Conditions static static) :
    (operator.rule widths).Mirrors mirror store (operator.rule others) := by
  cases operator with
  | reg | not => exact ⟨.cons .bit .nil, .bit, .nil⟩
  | gate gate => exact ⟨.cons .bit (.cons .bit .nil), .bit, .nil⟩
  | mux => exact ⟨.cons .bit (.cons .bit (.cons .bit .nil)), .bit, .nil⟩
  | select index =>
      have indexFixed := fixed index List.mem_cons_self
      exact ⟨.cons (.bits (generated 0)) .nil, .bit,
        .cons (.binary .le indexFixed (generated 0)) .nil⟩
  | slice first last =>
      obtain ⟨firstFixed, lastFixed⟩ : mirror.Conditions first first ∧ mirror.Conditions last last := by
        simpa [Operator.statics] using fixed
      have sliced : mirror.Conditions (sliceWidth first last) (sliceWidth first last) :=
        (Static.Expr.Renamed.binary .add (.binary .sub lastFixed firstFixed) (.int 1)).simplify
          mirror.names_unique
      exact ⟨.cons (.bits (generated 0)) .nil, .bits sliced,
        .cons (.binary .lt (.int 0) firstFixed) (.cons (.binary .le lastFixed (generated 0)) .nil)⟩
  | concat =>
      exact ⟨.cons (.bits (generated 0)) (.cons (.bits (generated 1)) .nil),
        .bits (.binary .add (generated 0) (generated 1)), .nil⟩
  | rom addressSize wordSize =>
      obtain ⟨address, word⟩ : mirror.Conditions addressSize addressSize ∧
          mirror.Conditions wordSize wordSize := by simpa [Operator.statics] using fixed
      exact ⟨.cons (.bits address) .nil, .bits word, .nil⟩
  | ram addressSize wordSize =>
      obtain ⟨address, word⟩ : mirror.Conditions addressSize addressSize ∧
          mirror.Conditions wordSize wordSize := by simpa [Operator.statics] using fixed
      exact ⟨.cons (.bits address) (.cons .bit (.cons (.bits address) (.cons (.bits word) .nil))),
        .bits word, .nil⟩

private theorem expectKinds_mirrored (span : Source.Span) (kind : Static.Kind)
    (exprs : List Static.Expr) : ∀ {checker partner : Checker}, checker.Mirrors mirror partner →
      Mirrored mirror checker (fun _ _ _ => True)
        (exprs.forM (fun expr => expectKind span expr kind) checker)
        (exprs.forM (fun expr => expectKind span expr kind) partner) := by
  induction exprs with
  | nil => exact fun mirrors => .pure mirrors trivial
  | cons expr exprs ih =>
      intro checker partner mirrors
      apply Mirrored.bind (expectKind_mirrored span expr kind mirrors)
      intro _ _ _ _ mirrors _ _
      exact ih mirrors

private theorem ofOperator_mirrored (span : Source.Span) (operator : Operator)
    (mirrors : checker.Mirrors mirror partner)
    (fixed : ∀ static ∈ operator.statics, mirror.Conditions static static) :
    Mirrored mirror checker (fun rule other store => rule.Mirrors mirror store other)
      (ofOperator span operator checker) (ofOperator span operator partner) := by
  rw [ofOperator_eq]
  apply Mirrored.bind (expectKinds_mirrored span .int operator.statics mirrors)
  intro _ _ _ _ mirrors _ _
  apply Mirrored.bind (generate_mirrored operator.generated mirrors)
  intro widths others _ _ mirrors _ generated
  exact .pure mirrors (rule_mirrors generated fixed)

private theorem ofSignature_mirrors {signature other : Signature} {statics : List Static.Expr}
    (mirrors : signature.Mirrors mirror store other)
    (fixed : ∀ static ∈ statics, mirror.Conditions static static) :
    (ofSignature (signature.substitute (.ofList (signature.params.zip statics)))).Mirrors mirror
      store (ofSignature (other.substitute (.ofList (other.params.zip statics)))) := by
  have bound := Static.BoundAlike.ofList_zip mirror.names_unique mirrors.fixed fixed
  rw [← mirrors.like.params]
  have ports : ∀ {tys otherTys : List Ty}, List.Forall₂ (mirror.TysOver store) tys otherTys →
      List.Forall₂ (mirror.TysOver store)
        (Ty.substituteAll (.ofList (signature.params.zip statics)) tys)
        (Ty.substituteAll (.ofList (signature.params.zip statics)) otherTys) := by
    intro tys otherTys each
    rw [Ty.substituteAll_eq_map, Ty.substituteAll_eq_map, List.forall₂_map_left_iff,
      List.forall₂_map_right_iff]
    exact each.imp fun _ _ types => types.substitute bound
  have conditions : List.Forall₂ mirror.Conditions
      (signature.constraints.map (·.substitute (.ofList (signature.params.zip statics))))
      (other.constraints.map (·.substitute (.ofList (signature.params.zip statics)))) := by
    rw [List.forall₂_map_left_iff, List.forall₂_map_right_iff]
    exact mirrors.like.constraints.imp fun _ _ renamed => renamed.substitute bound
  exact ⟨ports mirrors.like.inputs, .ofOutputs (ports mirrors.like.outputs), conditions⟩

private theorem ofCall_mirrored (span : Source.Span) (node : Ident) (statics : List Static.Expr)
    (mirrors : checker.Mirrors mirror partner) (known : mirror.known node.name)
    (fixed : ∀ static ∈ statics, mirror.Conditions static static) :
    Mirrored mirror checker (fun rule other store => rule.Mirrors mirror store other)
      (ofCall span node statics checker) (ofCall span node statics partner) := by
  apply Mirrored.bind (expectKinds_mirrored span .int statics mirrors)
  intro _ _ next last mirrors _ _
  apply Mirrored.get_bind
  have related := mirrors.catalog node.name known
  rw [Catalog.instantiate, Catalog.instantiate]
  generalize next.catalog.get? node.name = found at related ⊢
  generalize last.catalog.get? node.name = otherFound at related ⊢
  cases related with
  | none => exact .reject mirrors (.unboundNode _)
  | @some signature other signatures =>
      by_cases arity : statics.length = signature.params.length
      · have otherArity : statics.length = other.params.length := by
          rw [arity, signatures.like.params]
        simp only [if_pos arity, if_pos otherArity]
        exact .pure mirrors (ofSignature_mirrors signatures fixed)
      · have otherArity : statics.length ≠ other.params.length := by
          rwa [← signatures.like.params]
        simp only [if_neg otherArity, signatures.like.params]
        exact .reject mirrors (.paramsArity _ _)

private theorem expectArity_mirrored (span : Source.Span) {rule other : Rule} (count : Nat)
    (mirrors : checker.Mirrors mirror partner) (rules : rule.Mirrors mirror store other) :
    Mirrored mirror checker (fun _ _ _ => True) (rule.expectArity span count checker)
      (other.expectArity span count partner) := by
  unfold expectArity
  rw [rules.inputs.length_eq]
  by_cases arity : count = other.inputs.length
  · rw [if_pos arity]
    exact .pure mirrors trivial
  · rw [if_neg arity]
    exact .reject mirrors (.argsArity _ _)

private theorem emitAll_mirrored {conditions others : List Static.Expr}
    (renamed : List.Forall₂ mirror.Conditions conditions others) :
    ∀ {checker partner : Checker}, checker.Mirrors mirror partner →
      Mirrored mirror checker (fun _ _ _ => True) (conditions.forM emit checker)
        (others.forM emit partner) := by
  induction renamed with
  | nil => exact fun mirrors => .pure mirrors trivial
  | cons head _ ih =>
      intro checker partner mirrors
      apply Mirrored.bind (emit_mirrored mirrors head)
      intro _ _ _ _ mirrors _ _
      exact ih mirrors

end Rule

/-! ## Expressions -/

namespace Env

/-- The same wires are in scope, with types that are alike. -/
def Mirrors (mirror : Mirror) (store : TypeStore) (env other : Env) : Prop :=
  List.Forall₂ (fun entry otherEntry => entry.1 = otherEntry.1 ∧
    mirror.TysOver store entry.2 otherEntry.2) env.entries other.entries

variable {env other : Env}

private theorem Mirrors.within (within : store.Within final)
    (mirrors : env.Mirrors mirror store other) : env.Mirrors mirror final other :=
  mirrors.imp fun _ _ same => ⟨same.1, within.tysOver same.2⟩

private theorem Mirrors.insert (name : String) {ty otherTy : Ty}
    (mirrors : env.Mirrors mirror store other) (types : mirror.TysOver store ty otherTy) :
    Env.Mirrors mirror store (env.insert name ty) (other.insert name otherTy) :=
  .cons ⟨rfl, types⟩ mirrors

private theorem typeOf_mirrored (id : Ident) (mirrors : checker.Mirrors mirror partner)
    (scopes : env.Mirrors mirror checker.types other) :
    Mirrored mirror checker (fun ty otherTy store => mirror.TysOver store ty otherTy)
      (env.typeOf id checker) (other.typeOf id partner) := by
  have related := Bindings.get?_related scopes id.name
  unfold typeOf
  generalize env.get? id.name = found at related ⊢
  generalize other.get? id.name = otherFound at related ⊢
  cases related with
  | none => exact .reject mirrors (.unboundWire _)
  | some types => exact .pure mirrors types

/-- Wherever the expression stands, it is inferred in step. -/
def InfersInStep (mirror : Mirror) (expr : Circuit.Expr) : Prop :=
  ∀ {env other : Env} {checker partner : Checker}, checker.Mirrors mirror partner →
    env.Mirrors mirror checker.types other →
      Mirrored mirror checker (fun typed otherTyped store =>
          typed.Like (mirror.TysOver store) otherTyped)
        (env.infer expr checker) (other.infer expr partner)

private theorem inferAll_mirrored {args : List Circuit.Expr}
    (each : ∀ arg ∈ args, InfersInStep mirror arg) :
    ∀ {env other : Env} {checker partner : Checker} {expected otherExpected : List Ty},
      checker.Mirrors mirror partner → env.Mirrors mirror checker.types other →
      List.Forall₂ (mirror.TysOver checker.types) expected otherExpected →
      Mirrored mirror checker (fun typed otherTyped store =>
          List.Forall₂ (Typed.Expr.Like (mirror.TysOver store)) typed otherTyped)
        (env.inferAll args expected checker) (other.inferAll args otherExpected partner) := by
  induction args with
  | nil =>
      intro env other checker partner expected otherExpected mirrors _ expecteds
      cases expecteds with
      | nil =>
          rw [inferAll, inferAll]
          exact .pure mirrors .nil
      | cons _ _ =>
          rw [inferAll_nil_cons, inferAll_nil_cons]
          exact .fault mirrors
  | cons arg args ih =>
      intro env other checker partner expected otherExpected mirrors scopes expecteds
      obtain ⟨eachFirst, eachRest⟩ := List.forall_mem_cons.mp each
      cases expecteds with
      | nil =>
          rw [inferAll_cons_nil, inferAll_cons_nil]
          exact .fault mirrors
      | cons first rest =>
          rw [inferAll, inferAll]
          apply Mirrored.bind (eachFirst mirrors scopes)
          intro typed otherTyped inferred otherInferred mirrors within like
          apply Mirrored.bind (unifyAt_mirrored arg.span mirrors like.ty_like
            (within.tysOver first))
          intro _ _ unified otherUnified mirrors further _
          have sofar := within.trans further
          apply Mirrored.bind (ih eachRest mirrors (scopes.within sofar)
            (rest.imp fun _ _ types => sofar.tysOver types))
          intro typedArgs otherTypedArgs last otherLast mirrors more argsLike
          have headLike := like.imp fun _ _ types => (further.trans more).tysOver types
          exact .pure mirrors (.cons headLike argsLike)

/-- Arguments are inferred in step, and the conditions of renamed rules are added. -/
theorem arguments_mirrored {rule otherRule : Rule} {args : List Circuit.Expr}
    {finish otherFinish : List Typed.Expr → Typed.Expr} (span : Source.Span)
    (each : ∀ arg ∈ args, InfersInStep mirror arg) (mirrors : checker.Mirrors mirror partner)
    (scopes : env.Mirrors mirror checker.types other)
    (rules : rule.Mirrors mirror checker.types otherRule)
    (finishes : ∀ typed otherTyped store, TypeStore.Within checker.types store →
      List.Forall₂ (Typed.Expr.Like (mirror.TysOver store)) typed otherTyped →
        (finish typed).Like (mirror.TysOver store) (otherFinish otherTyped)) :
    Mirrored mirror checker (fun typed otherTyped store =>
        typed.Like (mirror.TysOver store) otherTyped)
      ((do
        rule.expectArity span args.length
        let typedArgs ← env.inferAll args rule.inputs
        rule.demand
        pure (finish typedArgs) : CheckM Typed.Expr) checker)
      ((do
        otherRule.expectArity span args.length
        let typedArgs ← other.inferAll args otherRule.inputs
        otherRule.demand
        pure (otherFinish typedArgs) : CheckM Typed.Expr) partner) := by
  apply Mirrored.bind (Rule.expectArity_mirrored span args.length mirrors rules)
  intro _ _ arity otherArity mirrors arityWithin _
  apply Mirrored.bind (inferAll_mirrored each mirrors (scopes.within arityWithin)
    (rules.within arityWithin).inputs)
  intro typedArgs otherTypedArgs inferred otherInferred mirrors inferWithin argsLike
  apply Mirrored.bind (Rule.emitAll_mirrored rules.conditions mirrors)
  intro _ _ last otherLast mirrors demandWithin _
  apply Mirrored.pure mirrors
  apply finishes _ _ _ ((arityWithin.trans inferWithin).trans demandWithin)
  exact argsLike.imp fun _ _ like => like.imp fun _ _ types => demandWithin.tysOver types

private theorem infer_mirrored (expr : Circuit.Expr)
    (reads : mirror.Reads expr.statics expr.calls) : InfersInStep mirror expr := by
  induction expr with
  | const span value =>
      intro env other checker partner mirrors _
      rw [infer, infer]
      apply Mirrored.pure mirrors
      cases value with
      | bit value => exact .const .bit
      | bits values => exact .const (.bits (.int _))
  | wire span id =>
      intro env other checker partner mirrors scopes
      rw [infer, infer]
      apply Mirrored.bind (typeOf_mirrored id mirrors scopes)
      intro ty otherTy next last mirrors _ types
      exact .pure mirrors (.wire types)
  | apply span operator args ih =>
      intro env other checker partner mirrors scopes
      have argsInStep : ∀ arg ∈ args, InfersInStep mirror arg := by
        intro arg inside
        apply ih arg inside
        constructor
        · intro static written
          exact reads.statics static (List.mem_append_right _
            (Expr.mem_staticsAll.mpr ⟨arg, inside, written⟩))
        · intro call called
          exact reads.calls call (Expr.mem_callsAll.mpr ⟨arg, inside, called⟩)
      rw [infer, infer]
      apply Mirrored.bind (Rule.ofOperator_mirrored span operator mirrors
        fun static written => reads.statics static (List.mem_append_left _ written))
      intro rule otherRule next last mirrors within rules
      apply arguments_mirrored span argsInStep mirrors (scopes.within within) rules
      intro typed otherTyped store later argsLike
      exact .apply (later.tysOver rules.output) argsLike
  | call span node statics args ih =>
      intro env other checker partner mirrors scopes
      have argsInStep : ∀ arg ∈ args, InfersInStep mirror arg := by
        intro arg inside
        apply ih arg inside
        constructor
        · intro static written
          exact reads.statics static (List.mem_append_right _
            (Expr.mem_staticsAll.mpr ⟨arg, inside, written⟩))
        · intro call called
          exact reads.calls call (List.mem_cons_of_mem _
            (Expr.mem_callsAll.mpr ⟨arg, inside, called⟩))
      rw [infer, infer]
      apply Mirrored.bind (Rule.ofCall_mirrored span node statics mirrors
        (reads.calls _ List.mem_cons_self)
        fun static written => reads.statics static (List.mem_append_left _ written))
      intro rule otherRule next last mirrors within rules
      apply arguments_mirrored span argsInStep mirrors (scopes.within within) rules
      intro typed otherTyped store later argsLike
      exact .call (later.tysOver rules.output) argsLike

/-! ## Wires and equations -/

private theorem annotate_mirrored (wire : Local) {ty otherTy : Ty}
    (mirrors : checker.Mirrors mirror partner) (types : mirror.TysOver checker.types ty otherTy)
    (fixed : ∀ static ∈ wire.statics, mirror.Conditions static static) :
    Mirrored mirror checker (fun _ _ _ => True) (annotate wire ty checker)
      (annotate wire otherTy partner) := by
  unfold annotate
  unfold Local.statics at fixed
  cases declaration : wire.declared with
  | none => exact .pure mirrors trivial
  | some declared =>
      rw [declaration] at fixed
      exact unifyAt_mirrored wire.id.span mirrors types (.declared fixed)

/-- The wires that were put in scope, and what is in scope with them. -/
structure DeclaredAlike (mirror : Mirror) (result other : Env × List Typed.Wire)
    (store : TypeStore) : Prop where
  inner : result.1.Mirrors mirror store other.1
  wires : List.Forall₂ (Typed.Wire.Like (mirror.TysOver store)) result.2 other.2

private theorem declare_mirrored (locals : List Local)
    (fixed : ∀ wire ∈ locals, ∀ static ∈ wire.statics, mirror.Conditions static static) :
    ∀ {env other : Env} {checker partner : Checker}, checker.Mirrors mirror partner →
      env.Mirrors mirror checker.types other →
      Mirrored mirror checker (DeclaredAlike mirror) (env.declare locals checker)
        (other.declare locals partner) := by
  induction locals with
  | nil => exact fun mirrors scopes => .pure mirrors ⟨scopes, .nil⟩
  | cons wire rest ih =>
      intro env other checker partner mirrors scopes
      obtain ⟨wireFixed, restFixed⟩ := List.forall_mem_cons.mp fixed
      rw [declare_cons, declare_cons]
      apply Mirrored.bind (freshTy_mirrored mirrors)
      intro ty otherTy fresh otherFresh mirrors freshWithin types
      apply Mirrored.bind (annotate_mirrored wire mirrors types wireFixed)
      intro _ _ annotated otherAnnotated mirrors annotateWithin _
      have scopes := scopes.within (freshWithin.trans annotateWithin)
      have types := annotateWithin.tysOver types
      apply Mirrored.bind (ih restFixed mirrors (scopes.insert wire.id.name types))
      rintro ⟨inner, wires⟩ ⟨otherInner, otherWires⟩ last otherLast mirrors within ⟨inners, each⟩
      exact .pure mirrors ⟨inners, .cons ⟨rfl, within.tysOver types⟩ each⟩

private theorem typesOf_mirrored (ids : List Ident) (mirrors : checker.Mirrors mirror partner)
    (scopes : env.Mirrors mirror checker.types other) :
    Mirrored mirror checker (fun tys others store =>
        List.Forall₂ (fun ty otherTy => mirror.TysOver store ty otherTy) tys others)
      (ids.mapM env.typeOf checker) (ids.mapM other.typeOf partner) := by
  have same : List.Forall₂ Eq ids ids := by simp
  have eachInStep : ∀ id otherId, id = otherId → ∀ {middle otherMiddle : Checker},
      middle.Mirrors mirror otherMiddle → checker.types.Within middle.types →
      Mirrored mirror middle (fun ty otherTy store => mirror.TysOver store ty otherTy)
        (env.typeOf id middle) (other.typeOf otherId otherMiddle) := by
    rintro id _ rfl middle otherMiddle mirrors within
    exact typeOf_mirrored id mirrors (scopes.within within)
  apply Mirrored.mapM _ same mirrors eachInStep
  exact fun within types => within.tysOver types

private theorem patternTy_mirrored (pattern : Pattern) (mirrors : checker.Mirrors mirror partner)
    (scopes : env.Mirrors mirror checker.types other) :
    Mirrored mirror checker (fun ty otherTy store => mirror.TysOver store ty otherTy)
      (env.patternTy pattern checker) (other.patternTy pattern partner) := by
  cases pattern with
  | single id => exact typeOf_mirrored id mirrors scopes
  | tuple ids =>
      apply Mirrored.bind (typesOf_mirrored ids mirrors scopes)
      intro tys others next last mirrors _ each
      exact .pure mirrors (.product each)

private theorem checkEquation_mirrored (equation : Equation)
    (mirrors : checker.Mirrors mirror partner) (scopes : env.Mirrors mirror checker.types other)
    (reads : mirror.Reads equation.value.statics equation.value.calls) :
    Mirrored mirror checker (fun typed otherTyped store =>
        typed.Like (mirror.TysOver store) otherTyped)
      (env.checkEquation equation checker) (other.checkEquation equation partner) := by
  apply Mirrored.bind (patternTy_mirrored equation.pattern mirrors scopes)
  intro expected otherExpected patterned otherPatterned mirrors within expecteds
  have checked : Mirrored mirror patterned (fun typed otherTyped store =>
      typed.Like (mirror.TysOver store) otherTyped)
      (env.check equation.value expected patterned)
      (other.check equation.value otherExpected otherPatterned) := by
    apply Mirrored.bind (infer_mirrored equation.value reads mirrors (scopes.within within))
    intro typed otherTyped inferred otherInferred mirrors inferWithin like
    apply Mirrored.bind (unifyAt_mirrored equation.value.span mirrors like.ty_like
      (inferWithin.tysOver expecteds))
    intro _ _ unified otherUnified mirrors unifyWithin _
    exact .pure mirrors (like.imp fun _ _ types => unifyWithin.tysOver types)
  apply Mirrored.bind checked
  intro value otherValue last otherLast mirrors _ like
  exact .pure mirrors ⟨rfl, rfl, like⟩

/-! ## Bodies -/

private theorem substituteEntry_mirrored {bindings others : Bindings Static.Expr}
    (bound : Static.BoundAlike mirror.names bindings others) {entry otherEntry : String × Ty}
    (mirrors : checker.Mirrors mirror partner) (names : entry.1 = otherEntry.1)
    (types : mirror.TysOver checker.types entry.2 otherEntry.2) :
    Mirrored mirror checker (fun result otherResult store => result.1 = otherResult.1 ∧
        mirror.TysOver store result.2 otherResult.2)
      (substituteEntry bindings entry checker) (substituteEntry others otherEntry partner) := by
  have otherOver := mirrors.state.types.isOver types.like types.owned
  have substituted : Mirrored mirror checker (fun ty otherTy store => mirror.TysOver store ty otherTy)
      (onTypes (TypeStore.substitute bindings entry.2) checker)
      (onTypes (TypeStore.substitute others otherEntry.2) partner) := by
    apply onTypes_mirrored mirrors
      (TypeStore.substitute_ends bindings mirrors.state.types.wellFormed types.owned)
      (TypeStore.substitute_ends others mirrors.state.types.otherWellFormed otherOver)
    rintro _ _ store within ⟨resolved, resolves, rfl⟩ ⟨otherResolved, otherResolves, rfl⟩
    have resolvedTypes := Mirrors.resolved mirrors types resolves otherResolves
    exact (within.tysOver resolvedTypes).substitute bound
  apply Mirrored.bind substituted
  intro ty otherTy next last mirrors _ types
  exact .pure mirrors ⟨names, types⟩

/-- A condition that keeps its names is assumed in step. -/
theorem assume_mirrored (condition : Static.Expr) (mirrors : checker.Mirrors mirror partner)
    (scopes : env.Mirrors mirror checker.types other)
    (fixed : mirror.Conditions condition condition) :
    Mirrored mirror checker (fun assumed otherAssumed store =>
        assumed.Mirrors mirror store otherAssumed)
      (env.assume condition checker) (other.assume condition partner) := by
  unfold assume
  cases found : condition.equation? with
  | none => exact .pure mirrors scopes
  | some equation =>
      obtain ⟨name, value⟩ := equation
      rw [Static.Expr.equation?_eq_some found] at fixed
      have bound : Static.BoundAlike mirror.names (Bindings.empty.insert name value)
          (Bindings.empty.insert name value) := by
        cases fixed with
        | binary _ names values =>
            cases names with
            | var paired => exact .insert mirror.names_unique .empty paired values
      have eachInStep : ∀ entry otherEntry : String × Ty, entry.1 = otherEntry.1 ∧
          mirror.TysOver checker.types entry.2 otherEntry.2 → ∀ {middle otherMiddle : Checker},
            middle.Mirrors mirror otherMiddle → checker.types.Within middle.types →
            Mirrored mirror middle (fun result otherResult store => result.1 = otherResult.1 ∧
                mirror.TysOver store result.2 otherResult.2)
              (substituteEntry (Bindings.empty.insert name value) entry middle)
              (substituteEntry (Bindings.empty.insert name value) otherEntry otherMiddle) := by
        rintro entry otherEntry ⟨names, types⟩ middle otherMiddle mirrors within
        exact substituteEntry_mirrored bound mirrors names (within.tysOver types)
      apply Mirrored.bind (Mirrored.mapM
        (fun within same => ⟨same.1, within.tysOver same.2⟩) scopes mirrors eachInStep)
      intro entries otherEntries next last mirrors _ each
      exact .pure mirrors each

/-- A body is checked in step in states that mirror each other. -/
theorem checkBlock_mirrored (block : Block) :
    ∀ {env other : Env} {checker partner : Checker}, mirror.Reads block.statics block.calls →
      checker.Mirrors mirror partner → env.Mirrors mirror checker.types other →
      Mirrored mirror checker (fun typed otherTyped store =>
          typed.Like (mirror.TysOver store) otherTyped)
        (env.checkBlock block checker) (other.checkBlock block partner) := by
  induction block with
  | system span locals equations =>
      intro env other checker partner reads mirrors scopes
      have wiresFixed : ∀ wire ∈ locals, ∀ static ∈ wire.statics,
          mirror.Conditions static static := by
        intro wire inside static written
        exact reads.statics static (List.mem_append_left _
          (List.mem_flatMap.mpr ⟨wire, inside, written⟩))
      apply Mirrored.bind (declare_mirrored locals wiresFixed mirrors scopes)
      rintro ⟨inner, wires⟩ ⟨otherInner, otherWires⟩ declared otherDeclared mirrors _ declaredAlike
      have same : List.Forall₂ (fun equation other => equation = other ∧ equation ∈ equations)
          equations equations := by simp [List.forall₂_same]
      have eachInStep : ∀ equation otherEquation,
          equation = otherEquation ∧ equation ∈ equations → ∀ {middle otherMiddle : Checker},
            middle.Mirrors mirror otherMiddle → declared.types.Within middle.types →
            Mirrored mirror middle (fun typed otherTyped store =>
                typed.Like (mirror.TysOver store) otherTyped)
              (inner.checkEquation equation middle)
              (otherInner.checkEquation otherEquation otherMiddle) := by
        rintro equation _ ⟨rfl, inside⟩ middle otherMiddle mirrors within
        apply checkEquation_mirrored equation mirrors (declaredAlike.inner.within within)
        constructor
        · intro static written
          exact reads.statics static (List.mem_append_right _
            (List.mem_flatMap.mpr ⟨equation, inside, written⟩))
        · intro call called
          exact reads.calls call (List.mem_flatMap.mpr ⟨equation, inside, called⟩)
      apply Mirrored.bind (Mirrored.mapM
        (fun within like => like.imp fun _ _ types => within.tysOver types) same mirrors eachInStep)
      intro typed otherTyped last otherLast mirrors within equationsLike
      have wiresLike := declaredAlike.wires.imp fun _ _ like =>
        like.imp fun _ _ types => within.tysOver types
      exact .pure mirrors (.system wiresLike equationsLike)
  | choice span condition onTrue onFalse ihTrue ihFalse =>
      intro env other checker partner reads mirrors scopes
      obtain ⟨conditionFixed, branchesFixed⟩ := List.forall_mem_cons.mp reads.statics
      have trueReads : mirror.Reads onTrue.statics onTrue.calls :=
        ⟨fun static written => branchesFixed static (List.mem_append_left _ written),
          fun call called => reads.calls call (List.mem_append_left _ called)⟩
      have falseReads : mirror.Reads onFalse.statics onFalse.calls :=
        ⟨fun static written => branchesFixed static (List.mem_append_right _ written),
          fun call called => reads.calls call (List.mem_append_right _ called)⟩
      apply Mirrored.bind (expectKind_mirrored span condition .bool mirrors)
      intro _ _ kinded otherKinded mirrors kindWithin _
      apply Mirrored.bind (assume_mirrored condition mirrors (scopes.within kindWithin)
        conditionFixed)
      intro assumed otherAssumed middle otherMiddle mirrors assumeWithin assumedScopes
      apply Mirrored.bind (ihTrue trueReads mirrors assumedScopes)
      intro typedTrue otherTrue next last mirrors trueWithin first
      have scopes := scopes.within ((kindWithin.trans assumeWithin).trans trueWithin)
      apply Mirrored.bind (ihFalse falseReads mirrors scopes)
      intro typedFalse otherFalse final otherFinal mirrors falseWithin second
      have first := first.imp fun _ _ types => falseWithin.tysOver types
      exact .pure mirrors (.choice first second)

end Env

end CircuitWidths
