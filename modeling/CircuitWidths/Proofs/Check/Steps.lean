import CircuitWidths.Proofs.Check.Calls
import CircuitWidths.Proofs.Courses
import CircuitWidths.Proofs.Check.Operators
import CircuitWidths.Proofs.Ty.Principal

/-!
# Steps of checking

While a node is checked the state only gains knowledge (`Checker.Grows`), so a model of a later
state is a model of every earlier one.  `Checks` is the course on which this is so: a step returns
with a state that has grown, or it rejects the circuit.  It never misuses the type store.
-/

namespace CircuitWidths

/-- The model agrees with the links and meets the pending conditions. -/
structure Model.Satisfies (model : Model) (state : Unification) : Prop where
  respects : model.Respects state.types
  meets : model.Meets state.constraints.pending

/-- Links, conditions and signatures are only added, and the settings stay. -/
structure Checker.Grows (checker next : Checker) : Prop where
  types : checker.types.Precedes next.types
  pending : ∃ conditions, next.constraints.pending = checker.constraints.pending ++ conditions
  settings : next.settings = checker.settings
  catalog : next.catalog = checker.catalog

/-- A step was left with a reason to reject the circuit. -/
structure Checker.Rejects (checker : Checker) (stop : Stop) (next : Checker) : Prop where
  rejected : ∃ rejection, stop = .rejected rejection
  wellFormed : next.types.WellFormed
  catalog : next.catalog = checker.catalog

/-- An expression that passes the check of its kind has the kind. -/
theorem Static.Expr.hasKind_of_expectKind {expr : Static.Expr} {kind : Static.Kind}
    (accepted : expr.expectKind kind = .ok ()) : expr.HasKind kind := by
  unfold Static.Expr.expectKind at accepted
  cases found : expr.kind with
  | error mismatch =>
      rw [found] at accepted
      cases accepted
  | ok other =>
      rw [found] at accepted
      change (if other = kind then _ else _) = _ at accepted
      split at accepted
      · rename_i same
        rw [HasKind, found, same]
      · cases accepted

variable {checker middle next : Checker} {model : Model} {α β : Type}

namespace Checker.Grows

private theorem refl (checker : Checker) : checker.Grows checker :=
  ⟨.refl _, ⟨[], (List.append_nil _).symm⟩, rfl, rfl⟩

theorem trans (first : checker.Grows middle) (second : middle.Grows next) :
    checker.Grows next := by
  obtain ⟨earlier, firstPending⟩ := first.pending
  obtain ⟨later, secondPending⟩ := second.pending
  refine ⟨first.types.trans second.types, ⟨earlier ++ later, ?_⟩,
    second.settings.trans first.settings, second.catalog.trans first.catalog⟩
  rw [secondPending, firstPending, List.append_assoc]

/-- A model of what is known later is one of what was known before. -/
theorem satisfies (grows : checker.Grows next) (satisfies : model.Satisfies next.toUnification) :
    model.Satisfies checker.toUnification := by
  obtain ⟨conditions, pending⟩ := grows.pending
  refine ⟨grows.types.respects satisfies.respects, ?_⟩
  have met := satisfies.meets
  rw [Model.Meets, pending, Static.allHold_append] at met
  exact met.1

/-- What is pending stays pending while the state grows. -/
theorem demanded {catalog : Catalog} {calls : List Circuit.Call} (grows : checker.Grows next)
    (demanded : catalog.Demanded calls checker.constraints.pending) :
    catalog.Demanded calls next.constraints.pending := by
  obtain ⟨conditions, pending⟩ := grows.pending
  rw [pending]
  exact demanded.later conditions

end Checker.Grows

private theorem Checker.Rejects.later {stop : Stop} (grows : checker.Grows middle)
    (rejects : middle.Rejects stop next) : checker.Rejects stop next :=
  ⟨rejects.rejected, rejects.wellFormed, rejects.catalog.trans grows.catalog⟩

/-- The state only gains knowledge, and the only way to fail is to reject the circuit. -/
abbrev Course.growing : Course Stop Checker where
  holds := fun checker => checker.types.WellFormed
  follows := Checker.Grows
  fails := Checker.Rejects
  refl := .refl
  trans := .trans
  fails_later := .later

/-- The step returns as `returns` allows, in a state that has grown, or rejects the circuit. -/
abbrev Checks (step : CheckM α) (checker : Checker) (returns : α → Checker → Prop) : Prop :=
  Stays .growing step checker returns

/-- A circuit may be rejected in any state that is well formed. -/
theorem Checks.reject {span : Source.Span} {cause : Cause} {returns : α → Checker → Prop}
    (wellFormed : checker.types.WellFormed) : Checks (CheckM.reject span cause) checker returns :=
  .throw ⟨⟨_, rfl⟩, wellFormed, rfl⟩

namespace CheckM

/-- What a step on the type store does, with everything else left as it is. -/
theorem onTypes_ends {step : StoreM α} {returns : α → Checker → Prop}
    {fails : Stop → Checker → Prop}
    (ends : Ends step checker.types (fun value types => returns value { checker with types := types })
      fun fault types => fails (.fault (.misuse fault)) { checker with types := types }) :
    Ends (onTypes step) checker returns fails := by
  cases run : step checker.types with
  | ok value types =>
      have lifted : onTypes step checker = .ok value { checker with types := types } := by
        rw [onTypes, run]
      exact .of_ok lifted (ends.returned run)
  | error fault types =>
      have lifted : onTypes step checker =
          .error (.fault (.misuse fault)) { checker with types := types } := by
        rw [onTypes, run]
      exact .of_error lifted (ends.failed run)

/-- The outcome of unification is a value, and only links and pending conditions change. -/
theorem tryUnify_ends {found expected : Ty} {returns : Except UnifyError Unit → Checker → Prop}
    {fails : Stop → Checker → Prop}
    (ends : Ends (Unification.unify found expected) checker.toUnification
      (fun _ state => returns (.ok ()) { checker with toUnification := state })
      fun error state => returns (.error error) { checker with toUnification := state }) :
    Ends (tryUnify found expected) checker returns fails := by
  cases run : Unification.unify found expected checker.toUnification with
  | ok value state =>
      have lifted : tryUnify found expected checker =
          .ok (.ok ()) { checker with toUnification := state } := by rw [tryUnify, run]
      exact .of_ok lifted (ends.returned run)
  | error error state =>
      have lifted : tryUnify found expected checker =
          .ok (.error error) { checker with toUnification := state } := by rw [tryUnify, run]
      exact .of_ok lifted (ends.failed run)

/-- Steps on the type store may be taken one by one. -/
theorem onTypes_bind (step : StoreM α) (rest : α → StoreM β) :
    onTypes (step >>= rest) = onTypes step >>= fun value => onTypes (rest value) := by
  funext checker
  cases run : step checker.types with
  | ok value types =>
      have lifted : onTypes step checker = .ok value { checker with types := types } := by
        rw [onTypes, run]
      rw [bind_of_ok lifted, onTypes, bind_of_ok run]
      rfl
  | error fault types =>
      have lifted : onTypes step checker =
          .error (.fault (.misuse fault)) { checker with types := types } := by
        rw [onTypes, run]
      rw [bind_of_error lifted, onTypes, bind_of_error run]

/-- A step that only shortens paths in the type store returns. -/
theorem onTypes_run (checker : Checker) {step : StoreM α} {returns : α → Prop}
    (ends : Ends step checker.types
      (fun value types => TypeStore.Shortened checker.types types ∧ returns value) Never) :
    ∃ value types, onTypes step checker = .ok value { checker with types := types } ∧
      TypeStore.Shortened checker.types types ∧ returns value := by
  obtain ⟨value, types, run, shortened, returned⟩ := ends.exists_ok
  exact ⟨value, types, by rw [onTypes, run], shortened, returned⟩

/-- A new type variable is over the store that it is made in. -/
theorem freshTy_checks (wellFormed : checker.types.WellFormed) :
    Checks freshTy checker (fun ty next => ty.Over next.types) := by
  have run : freshTy checker = .ok checker.types.fresh.1
      { checker with types := checker.types.fresh.2 } := rfl
  refine .of_ok run ⟨TypeStore.fresh_wellFormed wellFormed,
    ⟨checker.types.fresh_precedes, ⟨[], (List.append_nil _).symm⟩, rfl, rfl⟩, ?_⟩
  intro id inside
  rw [checker.types.fresh_spec.1, Ty.mem_vars_var] at inside
  exact inside ▸ checker.types.fresh_owns

/-- Generating widths adds nothing that models have to meet. -/
theorem generate_checks (count : Nat) (wellFormed : checker.types.WellFormed) :
    Checks (generate count) checker (fun _ _ => True) :=
  .of_ok rfl ⟨wellFormed, ⟨.refl _, ⟨[], (List.append_nil _).symm⟩, rfl, rfl⟩, trivial⟩

/-- Checking goes on only with an expression of the expected kind. -/
theorem expectKind_checks (span : Source.Span) (expr : Static.Expr) (kind : Static.Kind)
    (wellFormed : checker.types.WellFormed) :
    Checks (expectKind span expr kind) checker (fun _ _ => expr.HasKind kind) := by
  unfold expectKind
  cases outcome : expr.expectKind kind with
  | ok => exact .pure wellFormed (Static.Expr.hasKind_of_expectKind outcome)
  | error mismatch => exact Checks.reject wellFormed

/-- Checking goes on only with expressions of the expected kind. -/
theorem expectKinds_checks (span : Source.Span) (kind : Static.Kind) (exprs : List Static.Expr)
    (wellFormed : checker.types.WellFormed) :
    Checks (exprs.forM fun expr => expectKind span expr kind) checker
      (fun _ _ => ∀ expr ∈ exprs, expr.HasKind kind) :=
  .forM (fun _ hasKind => hasKind) checker wellFormed fun expr _ _ wellFormed _ =>
    expectKind_checks span expr kind wellFormed

/-- An expression of the expected kind passes, and the state stays as it is. -/
theorem expectKind_run {span : Source.Span} {expr : Static.Expr} {kind : Static.Kind}
    (hasKind : expr.HasKind kind) : expectKind span expr kind checker = .ok () checker := by
  have accepted : expr.expectKind kind = .ok () := by
    rw [Static.Expr.expectKind, hasKind]
    exact if_pos rfl
  rw [expectKind, accepted]
  rfl

/-! ## Making types equal -/

/-- Two types were made equal: exactly the models in which they are equal remain. -/
structure Unified (checker : Checker) (found expected : Ty) (next : Checker) : Prop where
  wellFormed : next.types.WellFormed
  grows : checker.Grows next
  exactly : ∀ model : Model, model.Satisfies next.toUnification ↔
    model.Satisfies checker.toUnification ∧ found.denote model = expected.denote model
  size : next.types.size = checker.types.size
  nextWidth : next.nextWidth = checker.nextWidth

private theorem Unified.of_imposes {state : Unification} {found expected : Ty} {bound : Nat}
    (imposes : Unification.Imposes bound (fun model => found.denote model = expected.denote model)
      checker.toUnification state) :
    Unified checker found expected { checker with toUnification := state } := by
  obtain ⟨conditions, pending, models⟩ := imposes.exactly
  refine ⟨imposes.advances.wellFormed, ⟨imposes.advances.precedes, ⟨conditions, pending⟩, rfl, rfl⟩,
    fun model => ?_, imposes.advances.size, rfl⟩
  constructor
  · rintro ⟨respects, met⟩
    rw [Model.Meets, pending, Static.allHold_append] at met
    obtain ⟨before, same⟩ := (models model).mp ⟨respects, met.2⟩
    exact ⟨⟨before, met.1⟩, same⟩
  · rintro ⟨⟨respects, met⟩, same⟩
    obtain ⟨after, added⟩ := (models model).mpr ⟨respects, same⟩
    refine ⟨after, ?_⟩
    rw [Model.Meets, pending, Static.allHold_append]
    exact ⟨met, added⟩

/-- If unification succeeds, then only links and pending conditions change. -/
theorem unifyAt_run {span : Source.Span} {found expected : Ty} {state : Unification}
    (unified : Unification.unify found expected checker.toUnification = .ok () state) :
    unifyAt span found expected checker = .ok () { checker with toUnification := state } := by
  have run : tryUnify found expected checker =
      .ok (.ok ()) { checker with toUnification := state } := by rw [tryUnify, unified]
  rw [unifyAt, bind_of_ok run]
  rfl

/-- Two types are made equal, or else they are different in every model of what was known. -/
theorem unifyAt_ends (span : Source.Span) {found expected : Ty}
    (wellFormed : checker.types.WellFormed) (foundOver : found.Over checker.types)
    (expectedOver : expected.Over checker.types) :
    Ends (unifyAt span found expected) checker
      (fun _ next => Unified checker found expected next)
      (fun stop next => checker.Rejects stop next ∧ ∀ model : Model,
        model.Satisfies checker.toUnification → found.denote model ≠ expected.denote model) := by
  obtain ⟨bound, ends⟩ := Unification.unify_ends checker.toUnification wellFormed foundOver
    expectedOver
  cases outcome : Unification.unify found expected checker.toUnification with
  | ok value state => exact .of_ok (unifyAt_run outcome) (.of_imposes (ends.returned outcome))
  | error error state =>
      have excludes := ends.failed outcome
      have never : ∀ model : Model, model.Satisfies checker.toUnification →
          found.denote model ≠ expected.denote model :=
        fun model satisfies => excludes.never model satisfies.respects
      have run : tryUnify found expected checker =
          .ok (.error error) { checker with toUnification := state } := by rw [tryUnify, outcome]
      refine .after run ?_
      rcases excludes.refused with rfl | ⟨foundCount, expectedCount, rfl⟩
      · -- The message of a mismatch shows both types with their links followed.
        have stateWellFormed := excludes.advances.wellFormed
        obtain ⟨_, types, firstRun, shortened, _⟩ := onTypes_run
          { checker with toUnification := state }
          (TypeStore.resolve_ends stateWellFormed (excludes.advances.precedes.owned foundOver))
        refine .after firstRun ?_
        obtain ⟨_, types, secondRun, alsoShortened, _⟩ := onTypes_run
          { checker with toUnification := { state with types := types } }
          (TypeStore.resolve_ends (shortened.wellFormed stateWellFormed)
            (shortened.over_iff.mpr (excludes.advances.precedes.owned expectedOver)))
        refine .after secondRun (.throw ⟨⟨⟨_, rfl⟩, ?_, rfl⟩, never⟩)
        exact alsoShortened.wellFormed (shortened.wellFormed stateWellFormed)
      · exact .throw ⟨⟨⟨_, rfl⟩, excludes.advances.wellFormed, rfl⟩, never⟩

/-- Types that have been made equal are equal in every model of what is known afterwards. -/
theorem unifyAt_checks (span : Source.Span) {found expected : Ty}
    (wellFormed : checker.types.WellFormed) (foundOver : found.Over checker.types)
    (expectedOver : expected.Over checker.types) :
    Checks (unifyAt span found expected) checker
      (fun _ next => ∀ model : Model, model.Satisfies next.toUnification →
        found.denote model = expected.denote model) :=
  (unifyAt_ends span wellFormed foundOver expectedOver).imp
    (fun _ _ unified => ⟨unified.wellFormed, unified.grows,
      fun model satisfies => ((unified.exactly model).mp satisfies).2⟩)
    fun _ _ ⟨rejects, _⟩ => rejects

end CheckM

end CircuitWidths
