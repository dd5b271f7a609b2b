import CircuitWidths.Proofs.Check.Success

/-!
# Well-typed nodes are accepted

If the body of a node is well typed where the static variables have certain values, the node is
accepted, and these values, with suitable ones for the widths that were generated, meet the
conditions of its signature.  So a check asks for nothing that a well-typed use does not need.
-/

namespace CircuitWidths

open CheckM Circuit
open Static (Reading Valuation AllHold)

variable {checker next : Checker} {model : Model} {reading : Reading} {values : Valuation}
  {aside : String → Prop} {catalog : Catalog}

namespace Env

/-! ## Wires and equations -/

section Situated

variable {env : Env} {scope : Bindings GroundTy}

private theorem annotate_succeeds {wire : Local} {ty : Ty} {ground : GroundTy}
    (admits : wire.Admits reading values ground)
    (omits : ∀ static ∈ wire.statics, static.Omits aside)
    (continues : model.Continues reading values aside) (wellFormed : checker.types.WellFormed)
    (owned : ty.Over checker.types) (satisfies : model.Satisfies checker.toUnification)
    (denotes : ty.denote model = ground) :
    Ends (annotate wire ty) checker (fun _ next => Arrives model checker 0 0 next) Never := by
  unfold annotate
  cases annotation : wire.declared with
  | none => exact .pure (.refl satisfies)
  | some declared =>
      have closed := declared.toTy_flat.closed
      rw [Local.statics, annotation] at omits
      refine unifyAt_succeeds wire.id.span wellFormed owned (.of_closed closed) satisfies ?_
      rw [denotes, admits declared annotation, Ty.denote_eq_ground closed,
        continues.ground_eq omits]

private theorem declare_succeeds {locals : List Local} {tys : List GroundTy}
    (admits : List.Forall₂ (Local.Admits reading values) locals tys)
    (omits : ∀ wire ∈ locals, ∀ static ∈ wire.statics, static.Omits aside)
    (continues : model.Continues reading values aside) :
    ∀ {env : Env} {checker : Checker}, checker.types.WellFormed → env.Over checker.types →
      model.Satisfies checker.toUnification → model.SuppliesTypes checker.types tys →
      Ends (env.declare locals) checker (fun result next =>
        Arrives model checker 0 tys.length next ∧
          (result.2.map fun wire => wire.ty.denote model) = tys) Never := by
  induction admits with
  | nil => exact fun _ _ satisfies _ => .pure ⟨.refl satisfies, rfl⟩
  | @cons wire ground locals tys head _ ih =>
      intro env checker wellFormed owned satisfies supplies
      obtain ⟨wireOmits, restOmit⟩ := List.forall_mem_cons.mp omits
      have supplies : model.SuppliesTypes checker.types ([ground] ++ tys) := supplies
      rw [declare_cons]
      refine (freshTy_checks wellFormed).succeeding
        (freshTy_succeeds satisfies (supplies_append.mp supplies).1) ?_
      intro ty fresh wellFormed freshGrows tyOver succeeded
      obtain ⟨freshArrives, denotes⟩ := succeeded
      refine (annotate_checks wire wellFormed tyOver).succeeding
        (annotate_succeeds head wireOmits continues wellFormed tyOver freshArrives.satisfies
          denotes) ?_
      intro _ annotated wellFormed annotateGrows _ annotateArrives
      have grows := freshGrows.trans annotateGrows
      have arrives := freshArrives.trans annotateArrives
      have innerOver : Env.Over annotated.types (env.insert wire.id.name ty) :=
        (owned.later grows.types).insert (annotateGrows.types.owned tyOver)
      refine .bind (ih restOmit wellFormed innerOver arrives.satisfies
        (supplies.rest grows arrives)) ?_
      intro result last succeeded
      obtain ⟨inner, wires⟩ := result
      obtain ⟨restArrives, restDenote⟩ := succeeded
      have total := arrives.trans restArrives
      refine .pure ⟨?_, ?_⟩
      · simpa [Nat.add_comm] using total
      · rw [List.map_cons, denotes, restDenote]

private theorem patternTy_succeeds {pattern : Pattern} {ground : GroundTy}
    (typed : pattern.HasType scope ground) (situated : env.Situated model catalog scope checker) :
    Ends (env.patternTy pattern) checker (fun ty next => Arrives model checker 0 0 next ∧
      ty.denote model = ground) Never := by
  cases typed with
  | single bound =>
      obtain ⟨ty, found, denotes⟩ := situated.bound bound
      exact .of_ok (typeOf_run found) ⟨.refl situated.satisfies, denotes⟩
  | @tuple ids tys bound =>
      have all : ∃ found : List Ty, ids.mapM env.typeOf checker = .ok found checker ∧
          found.map (Ty.denote model) = tys := by
        induction bound with
        | nil => exact ⟨[], rfl, rfl⟩
        | cons head _ ih =>
            obtain ⟨ty, found, denotes⟩ := situated.bound head
            obtain ⟨rest, restRun, restDenote⟩ := ih
            refine ⟨ty :: rest, ?_, by rw [List.map_cons, denotes, restDenote]⟩
            rw [List.mapM_cons, bind_of_ok (typeOf_run found), bind_of_ok restRun]
            rfl
      obtain ⟨found, run, denote⟩ := all
      exact .after run (.pure ⟨.refl situated.satisfies, by rw [Ty.denote_product, denote]⟩)

/-- There are values for the widths that the check of the equation will generate, with which it
is accepted. -/
def Checkable (reading : Reading) (values : Valuation) (aside : String → Prop) (catalog : Catalog)
    (scope : Bindings GroundTy) (equation : Equation) : Prop :=
  ∃ widths : List Int, ∀ {env : Env} {model : Model} {checker : Checker},
    model.Continues reading values aside → env.Situated model catalog scope checker →
    model.SuppliesWidths checker widths →
    Ends (env.checkEquation equation) checker (fun _ next =>
      Arrives model checker widths.length 0 next) Never

private theorem checkEquation_succeeds (closed : catalog.Closed) (known : catalog.Omits aside)
    {equation : Equation} (typed : equation.WellTyped reading values catalog scope)
    (omits : ∀ static ∈ equation.value.statics, static.Omits aside) :
    Checkable reading values aside catalog scope equation := by
  obtain ⟨ground, left, right⟩ := typed
  obtain ⟨widths, valueEnds⟩ := infer_succeeds closed known equation.value right omits
  refine ⟨widths, fun {env model checker} continues situated supplies => ?_⟩
  refine (patternTy_checks equation.pattern situated.wellFormed situated.owned).succeeding
    (patternTy_succeeds left situated) ?_
  intro expected patterned wellFormed grows checked succeeded
  obtain ⟨expectedOver, _⟩ := checked
  obtain ⟨arrives, expectedDenotes⟩ := succeeded
  have inside := situated.later wellFormed grows arrives
  rw [check, bind_assoc]
  refine (infer_checks closed equation.value wellFormed inside.known inside.owned).succeeding
    (valueEnds continues inside (supplies.later grows arrives)) ?_
  intro value inferred wellFormed inferGrows infers succeeded
  obtain ⟨inferArrives, valueDenotes⟩ := succeeded
  rw [bind_assoc]
  refine .bind (unifyAt_succeeds equation.value.span wellFormed infers.owned.ty_over
    (inferGrows.types.owned expectedOver) inferArrives.satisfies
    (valueDenotes.trans expectedDenotes.symm)) fun _ last unifyArrives => ?_
  have total := (arrives.trans inferArrives).trans unifyArrives
  exact .pure (by simpa using total)

private theorem checkEquations_succeed (closed : catalog.Closed) {equations : List Equation}
    (checkable : ∀ equation ∈ equations, Checkable reading values aside catalog scope equation) :
    ∃ widths : List Int, ∀ {env : Env} {model : Model} {checker : Checker},
      model.Continues reading values aside → env.Situated model catalog scope checker →
      model.SuppliesWidths checker widths →
      Ends (equations.mapM env.checkEquation) checker (fun _ next =>
        Arrives model checker widths.length 0 next) Never := by
  induction equations with
  | nil => exact ⟨[], fun _ situated _ => .pure (.refl situated.satisfies)⟩
  | cons equation equations ih =>
      obtain ⟨⟨headWidths, headEnds⟩, tail⟩ := List.forall_mem_cons.mp checkable
      obtain ⟨tailWidths, tailEnds⟩ := ih tail
      refine ⟨headWidths ++ tailWidths, fun {env model checker} continues situated supplies => ?_⟩
      rw [List.mapM_cons]
      have catalogClosed : checker.catalog.Closed := situated.known ▸ closed
      refine (checkEquation_checks equation situated.wellFormed catalogClosed
        situated.owned).succeeding
        (headEnds continues situated (supplies_append.mp supplies).1) ?_
      intro typed middle wellFormed grows _ arrives
      refine .bind (tailEnds continues (situated.later wellFormed grows arrives)
        (supplies.rest grows arrives)) fun typedRest last restArrives => ?_
      have total := arrives.trans restArrives
      exact .pure (by simpa using total)

end Situated

/-! ## Bodies -/

section Bodies

variable {scope : Bindings Ty}

/-- The widths in scope have no name that is set aside. -/
def ScopeOmits (aside : String → Prop) (scope : Bindings Ty) : Prop :=
  ∀ entry ∈ scope.entries, ∀ width ∈ entry.2.widths, width.Omits aside

private theorem ScopeOmits.map_ground (omits : ScopeOmits aside scope)
    (continues : model.Continues reading values aside) :
    scope.map (Ty.ground model.reading model.values) = scope.map (Ty.ground reading values) := by
  unfold Bindings.map
  congr 1
  refine List.map_congr_left fun entry inside => ?_
  rw [continues.ground_eq (omits entry inside)]

private theorem ScopeOmits.refine {condition : Static.Expr} (omits : ScopeOmits aside scope)
    (written : condition.Omits aside) : ScopeOmits aside (refine scope condition) := by
  unfold Circuit.refine
  cases equation : condition.equation? with
  | none => exact omits
  | some solution =>
      obtain ⟨name, value⟩ := solution
      obtain rfl := Static.Expr.equation?_eq_some equation
      intro entry inside width mentioned
      obtain ⟨declared, member, rfl⟩ := List.mem_map.mp inside
      obtain ⟨original, inDeclared, rfl⟩ := Ty.mem_widths_substitute mentioned
      apply Static.Expr.Omits.simplify
      apply Static.Expr.Omits.substitute
      · intro other isAside used
        rw [omits declared member original inDeclared other isAside] at used
        cases used
      · intro other replacement bound mentionable isAside
        rw [Bindings.get?_insert] at bound
        split at bound
        · cases bound
          exact (Bool.or_eq_false_iff.mp (written mentionable isAside)).2
        · cases bound

/-- There are values for the widths and ground types for the wires that the check of the body will
generate, with which it is accepted. -/
def Acceptable (reading : Reading) (values : Valuation) (aside : String → Prop) (catalog : Catalog)
    (scope : Bindings Ty) (block : Block) : Prop :=
  ∃ (widths : List Int) (tys : List GroundTy), ∀ {env : Env} {model : Model} {checker : Checker},
    model.Continues reading values aside → checker.types.WellFormed →
    checker.catalog = catalog → env.Declares checker.types scope →
    model.Satisfies checker.toUnification → model.SuppliesWidths checker widths →
    model.SuppliesTypes checker.types tys →
    Ends (env.checkBlock block) checker (fun _ next =>
      Arrives model checker widths.length tys.length next) Never

private theorem acceptable_system (closed : catalog.Closed) {span : Source.Span}
    {locals : List Local} {equations : List Equation} {tys : List GroundTy}
    (annotated : List.Forall₂ (Local.Admits reading values) locals tys)
    (localsOmit : ∀ wire ∈ locals, ∀ static ∈ wire.statics, static.Omits aside)
    (scopeOmits : ScopeOmits aside scope)
    (checkable : ∀ equation ∈ equations, Checkable reading values aside catalog
      (innerScope reading values scope (locals.map (·.id.name)) tys) equation) :
    Acceptable reading values aside catalog scope (.system span locals equations) := by
  obtain ⟨widths, equationsEnd⟩ := checkEquations_succeed closed checkable
  refine ⟨widths, tys, ?_⟩
  intro env model checker continues wellFormed inCatalog declares satisfies suppliesWidths
    suppliesTypes
  refine (declare_checks locals wellFormed declares.owned).succeeding
    (declare_succeeds annotated localsOmit continues wellFormed declares.owned satisfies
      suppliesTypes) ?_
  intro result declared wellFormed grows introduces succeeded
  obtain ⟨inner, wires⟩ := result
  obtain ⟨arrives, denote⟩ := succeeded
  have inScope : inner.map (Ty.denote model) =
      innerScope reading values scope (locals.map (·.id.name)) tys := by
    rw [introduces.map_denote (declares.later grows.types) arrives.satisfies, denote,
      innerScope, innerScope, scopeOmits.map_ground continues]
  refine .bind (equationsEnd continues ⟨wellFormed, grows.catalog.trans inCatalog,
    introduces.owned, inScope, arrives.satisfies⟩ (suppliesWidths.later grows arrives))
    fun typedEquations last equationsArrive => ?_
  have total := arrives.trans equationsArrive
  exact .pure (by simpa using total)

private theorem acceptable_choice (closed : catalog.Closed) {span : Source.Span}
    {condition : Static.Expr} {onTrue onFalse : Block} (kind : condition.HasKind .bool)
    (first : Acceptable reading values aside catalog (refine scope condition) onTrue)
    (second : Acceptable reading values aside catalog scope onFalse) :
    Acceptable reading values aside catalog scope (.choice span condition onTrue onFalse) := by
  obtain ⟨trueWidths, trueTys, trueEnds⟩ := first
  obtain ⟨falseWidths, falseTys, falseEnds⟩ := second
  refine ⟨trueWidths ++ falseWidths, trueTys ++ falseTys, ?_⟩
  intro env model checker continues wellFormed inCatalog declares satisfies suppliesWidths
    suppliesTypes
  obtain ⟨assumed, types, run, shortened, assumedDeclares⟩ :=
    assume_run condition wellFormed declares
  refine .after (expectKind_run kind) (.after run ?_)
  let inside : Checker := { checker with types := types }
  have grows : checker.Grows inside :=
    ⟨shortened.precedes, ⟨[], (List.append_nil _).symm⟩, rfl, rfl⟩
  have arrives : Arrives model checker 0 0 inside :=
    ⟨⟨shortened.respects_iff.mpr satisfies.respects, satisfies.meets⟩, rfl, shortened.size⟩
  have wellFormed : inside.types.WellFormed := shortened.wellFormed wellFormed
  have suppliesWidths := suppliesWidths.later grows arrives
  have suppliesTypes := suppliesTypes.later grows arrives
  refine (checkBlock_checks closed onTrue wellFormed inCatalog assumedDeclares).succeeding
    (trueEnds continues wellFormed inCatalog assumedDeclares arrives.satisfies
      (supplies_append.mp suppliesWidths).1 (supplies_append.mp suppliesTypes).1) ?_
  intro typedTrue middle wellFormed trueGrows _ trueArrives
  refine .bind (falseEnds continues wellFormed (trueGrows.catalog.trans inCatalog)
    (declares.later (grows.trans trueGrows).types) trueArrives.satisfies
    (suppliesWidths.rest trueGrows trueArrives) (suppliesTypes.rest trueGrows trueArrives))
    fun typedFalse last falseArrives => ?_
  have total := (arrives.trans trueArrives).trans falseArrives
  exact .pure (by simpa using total)

/-- A body that is well typed by the rules is accepted, under a model that supplies the widths
and the types of wires that its check will generate. -/
theorem checkBlock_succeeds (closed : catalog.Closed) (known : catalog.Omits aside)
    {block : Block} (typed : block.WellTyped reading values catalog scope)
    (omits : ∀ static ∈ block.statics, static.Omits aside)
    (scopeOmits : ScopeOmits aside scope) :
    Acceptable reading values aside catalog scope block := by
  induction typed with
  | system tys annotated typed =>
      obtain ⟨localsOmit, equationsOmit⟩ := List.forall_mem_append.mp omits
      refine acceptable_system closed annotated (fun wire inside static written =>
        localsOmit static (List.mem_flatMap.mpr ⟨wire, inside, written⟩)) scopeOmits ?_
      intro equation inside
      refine checkEquation_succeeds closed known (typed equation inside) fun static written => ?_
      exact equationsOmit static (List.mem_flatMap.mpr ⟨equation, inside, written⟩)
  | choice kind _ _ first second =>
      obtain ⟨conditionOmits, branchesOmit⟩ := List.forall_mem_cons.mp omits
      obtain ⟨trueOmits, falseOmits⟩ := List.forall_mem_append.mp branchesOmit
      exact acceptable_choice closed kind
        (first trueOmits (scopeOmits.refine conditionOmits)) (second falseOmits scopeOmits)

end Bodies

end Env

/-! ## Nodes -/

/-- Widths and types of wires can be chosen in advance: there is a model of the links that supplies
them and agrees with the valuation everywhere else. -/
theorem TypeStore.WellFormed.exists_supplying {store : TypeStore} (wellFormed : store.WellFormed)
    (reading : Reading) (values : Valuation) (stem : String) (start : Nat) (widths : List Int)
    (tys : List GroundTy) :
    ∃ model : Model, model.reading = reading ∧ model.Respects store ∧
      model.SuppliesTypes store tys ∧
      Supplies (fun index => model.values (stem ++ index.repr)) start widths ∧
      ∀ name, (∀ index, start ≤ index → index < start + widths.length →
        name ≠ stem ++ index.repr) → model.values name = values name := by
  let supplied : Valuation := supply (fun index => stem ++ index.repr) values start widths
  let variableAt : Nat → TyVar := fun index => ⟨store.links.owner, index⟩
  have variableAt_injective : Function.Injective variableAt := by
    intro first second same
    exact (Slots.Key.mk.inj same).2
  let grounds : TyVar → GroundTy := supply variableAt (fun _ => .unit) store.size tys
  obtain ⟨respecting, respects, kept⟩ := wellFormed.exists_respects ⟨reading, supplied, grounds⟩
  refine ⟨⟨reading, supplied, respecting⟩, rfl, respects, ?_,
    supplies_supply (generated_injective stem), fun name outside => supply_of_ne outside⟩
  -- Variables that the store has yet to make have no links.
  refine (supplies_supply variableAt_injective).congr fun index above => kept _ fun ty linked => ?_
  have below := (TypeStore.owns_iff.mp linked.owns).2
  exact Nat.not_lt_of_le above below

namespace Circuit.Node

variable {node : Node}

private theorem portScope_omits (omits : ∀ static ∈ node.statics, static.Omits aside) :
    Env.ScopeOmits aside node.portScope := by
  intro entry inside width written
  rcases Bindings.mem_insertAll inside with listed | none
  · obtain ⟨port, member, rfl⟩ := List.mem_map.mp listed
    exact omits width (List.mem_append_left _ (List.mem_flatMap.mpr ⟨port, member, written⟩))
  · cases none

private theorem provisional_omits (omits : ∀ static ∈ node.statics, static.Omits aside) :
    ∀ static ∈ node.provisional.statics, static.Omits aside := by
  intro static inside
  rcases List.mem_append.mp inside with width | none
  · obtain ⟨ty, member, written⟩ := Ty.mem_widthsAll.mp width
    simp only [provisional, ← List.map_append] at member
    obtain ⟨port, inPorts, rfl⟩ := List.mem_map.mp member
    exact omits static (List.mem_append_left _ (List.mem_flatMap.mpr ⟨port, inPorts, written⟩))
  · cases none

private theorem ports_denote (omits : ∀ static ∈ node.statics, static.Omits aside)
    (continues : model.Continues reading values aside) :
    ((node.inputs ++ node.outputs).map fun port => port.declared.toTy.denote model) =
      (node.inputs ++ node.outputs).map fun port => port.declared.toTy.ground reading values := by
  refine List.map_congr_left fun port inside => ?_
  rw [Ty.denote_eq_ground port.declared.toTy_flat.closed]
  exact continues.ground_eq fun width written =>
    omits width (List.mem_append_left _ (List.mem_flatMap.mpr ⟨port, inside, written⟩))

/-- A well-typed node is accepted, with conditions that its valuation meets, if names that are set
aside are used neither in the node nor by known nodes, and all widths still to be generated are
among them. -/
theorem checkDefinition_accepts (ready : checker.Ready)
    (setAside : ∀ index, checker.nextWidth ≤ index →
      aside (checker.settings.widthStem ++ index.repr))
    (known : checker.catalog.Omits aside) (omits : ∀ static ∈ node.statics, static.Omits aside)
    (typed : node.WellTyped reading values checker.catalog) :
    ∃ (widths : List Int) (extended : Valuation),
      (∀ name, (∀ index, checker.nextWidth ≤ index →
        index < checker.nextWidth + widths.length →
          name ≠ checker.settings.widthStem ++ index.repr) → extended name = values name) ∧
      Ends node.checkDefinition checker (fun typed next =>
        next.nextWidth = checker.nextWidth + widths.length ∧
          AllHold reading extended typed.signature.constraints) Never := by
  have closed : (node.callable checker.catalog).Closed :=
    ready.catalog.register node.provisional_closed
  obtain ⟨widths, tys, bodyEnds⟩ := Env.checkBlock_succeeds closed
    (known.register (provisional_omits omits)) typed
    (fun static written => omits static (List.mem_append_right _ written))
    (portScope_omits omits)
  let portTys := (node.inputs ++ node.outputs).map fun port =>
    port.declared.toTy.ground reading values
  obtain ⟨model, rfl, respects, suppliesTypes, suppliesWidths, kept⟩ :=
    ready.types.exists_supplying reading values checker.settings.widthStem checker.nextWidth widths
      (portTys ++ tys)
  refine ⟨widths, model.values, kept, ?_⟩
  have continues : model.Continues model.reading values aside := by
    refine ⟨rfl, ?_⟩
    intro name notAside
    apply kept
    rintro index above _ rfl
    exact notAside (setAside index above)
  obtain ⟨suppliesPorts, suppliesLocals⟩ := supplies_append.mp suppliesTypes
  rw [checkDefinition_eq]
  refine .bind (node.introduce_ends ready.types) ?_
  intro ports started begun
  obtain ⟨inputs, outputs⟩ := ports
  obtain ⟨types, rfl, introduced⟩ := begun
  let inside : Checker :=
    { checker with types := types, catalog := node.callable checker.catalog }
  have declares : (portEnv inputs outputs).Declares inside.types node.portScope :=
    portEnv_declares introduced.inputsWired introduced.outputsWired
  have satisfies : model.Satisfies inside.toUnification := by
    refine ⟨introduced.respects model respects (ports_denote omits continues ▸ suppliesPorts), ?_⟩
    show model.Meets checker.constraints.pending
    rw [ready.drained]
    exact Static.allHold_nil
  have suppliesInside : model.SuppliesTypes inside.types tys := by
    rw [Model.SuppliesTypes, introduced.precedes.owner, introduced.size,
      ← List.length_map fun port : Port => port.declared.toTy.ground model.reading values]
    exact suppliesLocals
  refine (Env.checkBlock_checks closed node.body introduced.wellFormed rfl declares).succeeding
    (bodyEnds continues introduced.wellFormed rfl declares satisfies suppliesWidths
      suppliesInside) ?_
  intro body checked bodyWellFormed grows accepts arrives
  refine (node.conclude_ends bodyWellFormed accepts.owned
    (introduced.inputsWired.imp fun _ _ wired => wired.later grows.types)
    (introduced.outputsWired.imp fun _ _ wired => wired.later grows.types)).imp ?_ ?_
  · intro typed next concluded
    refine ⟨concluded.nextWidth.trans arrives.nextWidth, ?_⟩
    exact (Static.solve_reduces concluded.solved).keeps model.values arrives.satisfies.meets
  · intro stop next contradicts
    obtain ⟨contradiction, solved, _⟩ := contradicts.solved
    exact Static.solve_contradiction solved model.values arrives.satisfies.meets

private theorem checkDefinition_succeeds (ready : checker.Ready)
    (known : checker.catalog.Avoids checker.settings.widthStem)
    (avoids : ∀ static ∈ node.statics, static.Avoids checker.settings.widthStem)
    (typed : node.WellTyped reading values checker.catalog) :
    ∃ (widths : List Int) (extended : Valuation),
      (∀ name, (∀ index, checker.nextWidth ≤ index →
        index < checker.nextWidth + widths.length →
          name ≠ checker.settings.widthStem ++ index.repr) → extended name = values name) ∧
      Ends node.checkDefinition checker (fun typed next =>
        next.nextWidth = checker.nextWidth + widths.length ∧
          AllHold reading extended typed.signature.constraints) Never :=
  checkDefinition_accepts ready (fun index _ => ⟨index.repr, rfl⟩) known.omits
    (fun static inside => (avoids static inside).omits) typed

/-- **Well-typed nodes are accepted.**  If the body of a node is well typed for some values of the
static variables, the node is accepted, and these values, with suitable ones for the generated
widths, meet the conditions of its signature. -/
theorem check_complete {checker : Checker} {node : Node} (reached : checker.Reached)
    (selfContained : ∀ name signature, checker.catalog.get? name = some signature →
      signature.SelfContained)
    (avoids : ∀ static ∈ node.statics, static.Avoids checker.settings.widthStem)
    (reading : Reading) (values : Valuation)
    (typed : node.WellTyped reading values checker.catalog) :
    ∃ (typed : Typed.Node) (next : Checker) (extended : Valuation),
      node.check checker = .ok typed next ∧
      (∀ name, (∀ index, checker.nextWidth ≤ index → index < next.nextWidth →
        name ≠ checker.settings.widthStem ++ index.repr) → extended name = values name) ∧
      AllHold reading extended typed.signature.constraints := by
  have known : checker.catalog.Avoids checker.settings.widthStem :=
    fun name signature found static inside rest mentioned =>
      selfContained name signature found static inside _ mentioned
  obtain ⟨widths, extended, kept, ends⟩ :=
    checkDefinition_succeeds reached.ready known avoids typed
  obtain ⟨accepted, next, run, nextWidth, met⟩ := ends.exists_ok
  refine ⟨accepted, next, extended, by rw [check, run], ?_, met⟩
  rw [nextWidth]
  exact kept

/-- The rotation of a bus is well typed where the bus has four wires. -/
theorem check_complete_rotate :
    let reading : Reading := ⟨fun _ => 0, fun _ _ => 0⟩
    rotate.WellTyped reading (fun _ => 4) .empty ∧
      ∃ (typed : Typed.Node) (next : Checker) (extended : Valuation),
        rotate.check (.start {}) = .ok typed next ∧
        (∀ name, (∀ index, 0 ≤ index → index < next.nextWidth → name ≠ "$w" ++ index.repr) →
          extended name = 4) ∧
        AllHold reading extended typed.signature.constraints := by
  intro reading
  have typed : rotate.WellTyped reading (fun _ => 4) .empty := by
    refine .system [.bits 3] (.cons (fun _ declared => by cases declared) .nil) ?_
    intro equation inside
    simp only [List.mem_cons, List.not_mem_nil, or_false] at inside
    rcases inside with rfl | rfl
    · exact ⟨.bits 3, .single rfl, .apply (.cons (.wire rfl) .nil)
        (Operator.Admits.slice rfl rfl (by decide) (by decide))⟩
    · refine ⟨.bits 4, .single rfl, .apply (.cons (.wire rfl) (.cons ?_ .nil)) (.concat 3 1)⟩
      exact .apply (.cons (.wire rfl) .nil) (Operator.Admits.select rfl (by decide))
  have other : ∀ rest, ("n" == "$w" ++ rest) = false := by
    intro rest
    rw [beq_eq_false_iff_ne]
    intro same
    have length := congrArg String.length same
    rw [String.length_append] at length
    have stem : "$w".length = 2 := rfl
    have short : "n".length = 1 := rfl
    omega
  have avoids : ∀ static ∈ rotate.statics, static.Avoids "$w" := by
    have listed : rotate.statics = [.var "n", .var "n", .int 2, .var "n", .int 1] := rfl
    intro static inside rest
    rw [listed] at inside
    simp only [List.mem_cons, List.not_mem_nil, or_false] at inside
    rcases inside with rfl | rfl | rfl | rfl | rfl
    · exact other rest
    · exact other rest
    · rfl
    · exact other rest
    · rfl
  exact ⟨typed, check_complete (.start {}) (fun _ _ known => by cases known) avoids reading
    (fun _ => 4) typed⟩

end Circuit.Node

end CircuitWidths
