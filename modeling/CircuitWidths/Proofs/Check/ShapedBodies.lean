import CircuitWidths.Proofs.Check.Shapes
import CircuitWidths.Proofs.Check.Soundness

/-!
# Rejection before solving

A wire without a declared type can have any shape, and one with a declared type is a bus.  A body is
accepted exactly if there are shapes for its wires with which it is well shaped
(`checkBlock_shapes`).  So a node is rejected before its conditions are solved exactly if it is not
well shaped (`failsEarly_iff`).
-/

namespace CircuitWidths

open CheckM Circuit TypeStore

variable {checker : Checker}

namespace Env

variable {env : Env} {catalog : Catalog}

/-! ## Wires -/

private theorem annotate_narrows (wire : Local) {ty : Ty} (wellFormed : checker.types.WellFormed)
    (owned : ty.Over checker.types) :
    Narrows (annotate wire ty) checker (fun _ _ => ())
      (fun shapes _ => wire.AdmitsShape (ty.shape shapes)) := by
  unfold annotate Local.AdmitsShape
  cases wire.declared with
  | none => exact .of_ok rfl rfl (by simp)
  | some declared =>
      have flat := declared.toTy_flat
      apply (unifyAt_narrows wire.id.span wellFormed owned (.of_closed flat.closed)).congr
      intro shapes _
      simp [flat.shape_eq]

/-- Exactly the shapes that the wires admit remain, and all of them can be had without changing the
shapes of other variables. -/
structure IntroducesShapes (locals : List Local) (wires : List Typed.Wire)
    (checker next : Checker) : Prop where
  admits : ∀ shapes, next.types.Shaped shapes → checker.types.Shaped shapes ∧
    List.Forall₂ Local.AdmitsShape locals (wires.map fun wire => wire.ty.shape shapes)
  attains : ∀ shapes wireShapes, checker.types.Shaped shapes →
    List.Forall₂ Local.AdmitsShape locals wireShapes → ∃ others, next.types.Shaped others ∧
      (∀ id, checker.types.Owns id → others id = shapes id) ∧
      (wires.map fun wire => wire.ty.shape others) = wireShapes

/-- Wires declared after others. -/
theorem IntroducesShapes.cons {wire : Local} {rest : List Local} {entry : Typed.Wire}
    {wires : List Typed.Wire} {checker middle next : Checker}
    (first : IntroducesShapes [wire] [entry] checker middle)
    (second : IntroducesShapes rest wires middle next)
    (precedes : checker.types.Precedes middle.types) (owned : entry.ty.Over middle.types) :
    IntroducesShapes (wire :: rest) (entry :: wires) checker next where
  admits := by
    intro shapes shaped
    obtain ⟨shaped, others⟩ := second.admits shapes shaped
    obtain ⟨shaped, admitted⟩ := first.admits shapes shaped
    cases admitted with
    | cons admitted _ => exact ⟨shaped, .cons admitted others⟩
  attains := by
    intro shapes wireShapes shaped admitted
    cases admitted with
    | cons admitted others =>
        obtain ⟨between, shaped, kept, entryShape⟩ :=
          first.attains shapes _ shaped (.cons admitted .nil)
        obtain ⟨last, shaped, keptLater, restShapes⟩ := second.attains between _ shaped others
        have entryKept : entry.ty.shape last = entry.ty.shape between :=
          Ty.shape_congr fun id inside => keptLater id (owned id inside)
        refine ⟨last, shaped, ?_, ?_⟩
        · intro id owned
          rw [keptLater id (precedes.owns owned), kept id owned]
        · rw [List.map_cons, restShapes, entryKept]
          exact congrArg (· ++ _) entryShape

/-- One wire, with a new variable for its type. -/
theorem annotate_fresh_shapes (wire : Local) (wellFormed : checker.types.WellFormed) :
    Ends (annotate wire (.var ⟨checker.types.links.owner, checker.types.size⟩))
      { checker with types := checker.types.fresh.2 }
      (fun _ next => IntroducesShapes [wire]
        [⟨wire.id, .var ⟨checker.types.links.owner, checker.types.size⟩⟩] checker next)
      (fun stop _ => stop.Early ∧ ∀ shapes shape, checker.types.Shaped shapes →
        ¬ wire.AdmitsShape shape) := by
  obtain ⟨freshWellFormed, _, newestOver⟩ :=
    Ends.returned (freshTy_checks wellFormed) (rfl : freshTy checker = .ok _ _)
  apply Ends.imp (annotate_narrows wire freshWellFormed newestOver)
  · intro _ next exactly
    constructor
    · intro shapes shaped
      obtain ⟨shaped, admitted⟩ := (exactly shapes ()).mp ⟨shaped, rfl⟩
      exact ⟨shaped_fresh.mp shaped, .cons admitted .nil⟩
    · intro shapes wireShapes shaped admitted
      obtain ⟨shape, _, wireAdmits, none, rfl⟩ := List.forall₂_cons_left_iff.mp admitted
      cases none
      obtain ⟨others, shaped, kept, rfl⟩ := shaped.extend_fresh wellFormed shape
      exact ⟨others, ((exactly others ()).mpr ⟨shaped, wireAdmits⟩).1, kept, rfl⟩
  · rintro stop _ ⟨early, refused⟩
    refine ⟨early, ?_⟩
    intro shapes shape shaped admitted
    obtain ⟨others, shaped, _, rfl⟩ := shaped.extend_fresh wellFormed shape
    exact refused others () shaped admitted

private theorem declare_shapes (locals : List Local) : ∀ {env : Env} {checker : Checker},
    checker.types.WellFormed → env.Over checker.types →
      Ends (env.declare locals) checker
        (fun result next => IntroducesShapes locals result.2 checker next)
        (fun stop _ => stop.Early ∧ ∀ shapes wireShapes, checker.types.Shaped shapes →
          ¬ List.Forall₂ Local.AdmitsShape locals wireShapes) := by
  induction locals with
  | nil =>
      intro env checker _ _
      apply Ends.pure
      refine ⟨fun shapes shaped => ⟨shaped, .nil⟩, ?_⟩
      rintro shapes _ shaped ⟨⟩
      exact ⟨shapes, shaped, fun _ _ => rfl, rfl⟩
  | cons wire rest ih =>
      intro env checker wellFormed envOver
      obtain ⟨freshWellFormed, freshGrows, newestOver⟩ :=
        Ends.returned (freshTy_checks wellFormed) (rfl : freshTy checker = .ok _ _)
      rw [declare_cons]
      apply Ends.after (rfl : freshTy checker = .ok _ _)
      apply Ends.andThen ((annotate_fresh_shapes wire wellFormed).and
        (annotate_checks wire freshWellFormed newestOver))
      · rintro stop _ ⟨⟨early, refused⟩, _⟩
        refine ⟨early, ?_⟩
        intro shapes wireShapes shaped admitted
        cases admitted with
        | cons admitted _ => exact refused shapes _ shaped admitted
      rintro _ annotated ⟨first, annotatedWellFormed, annotateGrows, _⟩
      have grows := freshGrows.trans annotateGrows
      have newestOver := annotateGrows.types.owned newestOver
      apply Ends.andThen (ih annotatedWellFormed ((envOver.later grows.types).insert newestOver))
      · rintro stop _ ⟨early, refused⟩
        refine ⟨early, ?_⟩
        intro shapes wireShapes shaped admitted
        cases admitted with
        | cons admitted others =>
            obtain ⟨between, shaped, _⟩ := first.attains shapes _ shaped (.cons admitted .nil)
            exact refused between _ shaped others
      intro result last second
      exact .pure (first.cons second grows.types newestOver)

/-! ## Bodies -/

variable {scope : Bindings Ty} {shapes : Shapes}

/-- The names in scope, all of them for buses. -/
def buses (scope : Bindings Ty) : Bindings GroundTy :=
  scope.map fun _ => .bits 1

private theorem buses_refine (scope : Bindings Ty) (condition : Static.Expr) :
    buses (refine scope condition) = buses scope := by
  unfold refine
  cases condition.equation? with
  | none => rfl
  | some equation =>
      unfold buses Bindings.map
      rw [List.map_map]
      rfl

private theorem Declares.map_shape (declares : env.Declares checker.types scope)
    (shaped : checker.types.Shaped shapes) : env.map (Ty.shape shapes) = buses scope := by
  unfold buses Bindings.map
  congr 1
  apply map_eq_map_of_forall₂ declares
  intro entry declared same
  rw [same.name, same.leads.shape_eq shaped, same.flat.shape_eq]

private theorem Introduces.map_shape {locals : List Local} {inner : Env} {wires : List Typed.Wire}
    (introduces : env.Introduces locals inner wires checker)
    (declares : env.Declares checker.types scope) (shaped : checker.types.Shaped shapes) :
    inner.map (Ty.shape shapes) = (buses scope).insertAll
      ((locals.map (·.id.name)).zip (wires.map fun wire => wire.ty.shape shapes)) := by
  rw [introduces.scope, Bindings.map_insertAll, declares.map_shape shaped, introduces.names,
    List.zip_map', List.map_map]
  rfl

private theorem checkSystem_shapes (closed : checker.catalog.Closed) (span : Source.Span)
    (locals : List Local) (equations : List Equation) (wellFormed : checker.types.WellFormed)
    (declares : env.Declares checker.types scope) :
    Ends (env.checkBlock (.system span locals equations)) checker
      (fun _ _ => Block.WellShaped checker.catalog (buses scope) (.system span locals equations))
      (fun stop _ => stop.Early ∧
        ¬ Block.WellShaped checker.catalog (buses scope) (.system span locals equations)) := by
  apply Ends.andThen ((declare_shapes locals wellFormed declares.owned).and
    (declare_checks locals wellFormed declares.owned))
  · rintro stop _ ⟨⟨early, refused⟩, _⟩
    refine ⟨early, ?_⟩
    rintro ⟨wireShapes, annotated, _⟩
    -- The state has shapes at all, so what refuses every one of them refuses the system.
    obtain ⟨shapes, shaped⟩ := wellFormed.exists_shaped
    exact refused shapes wireShapes shaped annotated
  rintro ⟨inner, wires⟩ declared ⟨introducesShapes, declaredWellFormed, declareGrows, introduces⟩
  have declares := declares.later declareGrows.types
  rw [← declareGrows.catalog] at closed ⊢
  apply Ends.andThen
    ((checkEquations_narrow closed equations declaredWellFormed rfl introduces.owned).and
      (checkEquations_checks equations declaredWellFormed closed introduces.owned))
  · rintro stop _ ⟨⟨early, refused⟩, _⟩
    refine ⟨early, ?_⟩
    rintro ⟨wireShapes, annotated, wellShaped⟩
    obtain ⟨shapes, shaped⟩ := wellFormed.exists_shaped
    obtain ⟨others, othersShaped, _, rfl⟩ :=
      introducesShapes.attains shapes wireShapes shaped annotated
    rw [← introduces.map_shape declares othersShaped] at wellShaped
    exact refused others () othersShaped wellShaped
  rintro typed last ⟨exactly, lastWellFormed, _, _⟩
  -- Any shapes that are left at the end are a derivation.
  obtain ⟨shapes, lastShaped⟩ := lastWellFormed.exists_shaped
  obtain ⟨shaped, wellShaped⟩ := (exactly shapes ()).mp ⟨lastShaped, rfl⟩
  rw [introduces.map_shape declares shaped] at wellShaped
  exact .pure (.system _ (introducesShapes.admits shapes shaped).2 wellShaped)

/-- A body is accepted exactly if it is well shaped. -/
theorem checkBlock_shapes (closed : catalog.Closed) (block : Block) :
    ∀ {env : Env} {scope : Bindings Ty} {checker : Checker}, checker.types.WellFormed →
      checker.catalog = catalog → env.Declares checker.types scope →
      Ends (env.checkBlock block) checker
        (fun _ _ => block.WellShaped catalog (buses scope))
        (fun stop _ => stop.Early ∧ ¬ block.WellShaped catalog (buses scope)) := by
  induction block with
  | system span locals equations =>
      rintro env scope checker wellFormed rfl declares
      exact checkSystem_shapes closed span locals equations wellFormed declares
  | choice span condition onTrue onFalse ihTrue ihFalse =>
      rintro env scope checker wellFormed rfl declares
      apply Ends.andThen ((expectKind_narrows span condition .bool).and
        (expectKind_checks span condition .bool wellFormed))
      · rintro stop _ ⟨⟨early, refused⟩, _⟩
        refine ⟨early, ?_⟩
        intro wellShaped
        cases wellShaped with
        | choice kind _ _ =>
            obtain ⟨shapes, shaped⟩ := wellFormed.exists_shaped
            exact refused shapes () shaped kind
      rintro _ kinded ⟨_, kindedWellFormed, kindGrows, kind⟩
      have kindedDeclares := declares.later kindGrows.types
      obtain ⟨assumed, types, assumeRun, _⟩ := assume_run condition kindedWellFormed kindedDeclares
      obtain ⟨assumedWellFormed, assumeGrows, refined⟩ :=
        Ends.returned (assume_checks condition kindedWellFormed kindedDeclares) assumeRun
      have grows := kindGrows.trans assumeGrows
      have first := ihTrue assumedWellFormed grows.catalog refined
      rw [buses_refine] at first
      apply Ends.after assumeRun
      apply Ends.andThen (first.and
        (checkBlock_checks closed onTrue assumedWellFormed grows.catalog refined))
      · rintro stop _ ⟨⟨early, refused⟩, _⟩
        refine ⟨early, ?_⟩
        intro wellShaped
        cases wellShaped with
        | choice _ first _ => exact refused first
      rintro _ middle ⟨firstShaped, middleWellFormed, trueGrows, _⟩
      have grows := grows.trans trueGrows
      apply Ends.andThen (ihFalse middleWellFormed grows.catalog (declares.later grows.types))
      · rintro stop _ ⟨early, refused⟩
        refine ⟨early, ?_⟩
        intro wellShaped
        cases wellShaped with
        | choice _ _ second => exact refused second
      intro _ _ secondShaped
      exact .pure (.choice kind firstShaped secondShaped)

end Env

/-! ## Nodes -/

namespace Circuit.Node

/-- The body of a node is well shaped, with buses for its ports. -/
def WellShaped (catalog : Catalog) (node : Node) : Prop :=
  node.body.WellShaped (node.callable catalog) (Env.buses node.portScope)

/-- A node that is well shaped is accepted, or its conditions contradict each other. -/
theorem checkDefinition_shapes (node : Node) (wellFormed : checker.types.WellFormed)
    (closed : checker.catalog.Closed) :
    Ends node.checkDefinition checker (fun _ _ => node.WellShaped checker.catalog)
      (fun stop _ => (stop.Early ∧ ¬ node.WellShaped checker.catalog) ∨
        (node.WellShaped checker.catalog ∧
          ∃ condition, stop = .rejected ⟨node.span, .contradiction condition⟩)) := by
  have callableClosed : (node.callable checker.catalog).Closed :=
    closed.register node.provisional_closed
  rw [checkDefinition_eq]
  apply Ends.bind ((node.introduce_ends wellFormed).never fun _ _ introduced => introduced)
  rintro ⟨inputs, outputs⟩ _ ⟨types, rfl, introduced⟩
  have declares := portEnv_declares introduced.inputsWired introduced.outputsWired
  apply Ends.andThen
    ((Env.checkBlock_shapes callableClosed node.body introduced.wellFormed rfl declares).and
      (Env.checkBlock_checks callableClosed node.body introduced.wellFormed rfl declares))
  · rintro stop _ ⟨early, _⟩
    exact .inl early
  rintro body checked ⟨wellShaped, bodyWellFormed, grows, accepts⟩
  apply (node.conclude_ends bodyWellFormed accepts.owned
    (introduced.inputsWired.imp fun _ _ wired => wired.later grows.types)
    (introduced.outputsWired.imp fun _ _ wired => wired.later grows.types)).imp
  · exact fun _ _ _ => wellShaped
  · intro stop _ contradicts
    obtain ⟨contradiction, _, stopped⟩ := contradicts.solved
    exact .inr ⟨wellShaped, contradiction.condition, stopped⟩

/-- The body of the node is rejected, before any condition is solved. -/
def FailsEarly (checker : Checker) (node : Node) : Prop :=
  ∃ span cause next, node.checkDefinition checker = .error (.rejected ⟨span, cause⟩) next ∧
    ∀ condition, cause ≠ .contradiction condition

/-- The body of the node is accepted, and its conditions contradict each other. -/
def FailsSolving (checker : Checker) (node : Node) : Prop :=
  ∃ span condition next,
    node.checkDefinition checker = .error (.rejected ⟨span, .contradiction condition⟩) next

/-- A node fails before its conditions are solved exactly if its body is not well shaped. -/
theorem failsEarly_iff (node : Node) (ready : checker.Ready) :
    node.FailsEarly checker ↔ ¬ node.WellShaped checker.catalog := by
  have ends := node.checkDefinition_shapes ready.types ready.catalog
  constructor
  · rintro ⟨span, cause, next, run, early⟩ wellShaped
    rcases ends.failed run with ⟨_, refused⟩ | ⟨_, condition, stopped⟩
    · exact refused wellShaped
    · cases stopped
      exact early condition rfl
  · intro refused
    cases run : node.checkDefinition checker with
    | ok typed next => exact (refused (ends.returned run)).elim
    | error stop next =>
        obtain ⟨⟨span, cause⟩, rfl⟩ :=
          ((node.checkDefinition_ends ready.types ready.catalog).failed run).rejected
        rcases ends.failed run with ⟨early, _⟩ | ⟨wellShaped, _⟩
        · refine ⟨span, cause, next, run, ?_⟩
          rintro condition rfl
          exact early span condition rfl
        · exact (refused wellShaped).elim

end Circuit.Node

end CircuitWidths
