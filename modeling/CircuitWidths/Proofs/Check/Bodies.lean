import CircuitWidths.Check.Body
import CircuitWidths.Proofs.Check.Expressions

/-!
# Checked bodies obey the rules

Around a body only ports are in scope, whose variables lead to declared types (`Env.Declares`).
This stays so when a condition is assumed, and the scope is then the refined one of the rules.
Under every model of the state in which the check of a body ends, its typed form obeys the rules,
and the conditions of all its calls are pending there (`checkBlock_checks`).
-/

namespace CircuitWidths

open CheckM Circuit

variable {checker next : Checker} {model : Model} {store grown : TypeStore}

/-- A declared type is a bit or a bus. -/
theorem Circuit.DeclaredTy.toTy_flat (declared : DeclaredTy) : declared.toTy.Flat := by
  cases declared with
  | bit => exact .bit
  | bits width => exact .bits width

/-- If links lead from a type to a bit or a bus, then the type is over the store. -/
theorem TypeStore.Leads.start_over {ty head : Ty} (leads : store.Leads ty head)
    (flat : head.Flat) : ty.Over store := by
  cases leads with
  | concrete => exact .of_closed flat.closed
  | free => exact (flat.ne_var _ rfl).elim
  | follow linked _ =>
      intro id inside
      obtain rfl := Ty.mem_vars_var.mp inside
      exact linked.owns

namespace Env

variable {env : Env} {scope : Bindings Ty} {catalog : Catalog}

/-! ## Declared types in scope -/

/-- The type in scope leads to what is declared for its name. -/
structure DeclaredAs (store : TypeStore) (entry declared : String × Ty) : Prop where
  name : entry.1 = declared.1
  leads : store.Leads entry.2 declared.2
  flat : declared.2.Flat

/-- All types in scope lead to declared types. -/
def Declares (store : TypeStore) (env : Env) (scope : Bindings Ty) : Prop :=
  List.Forall₂ (DeclaredAs store) env.entries scope.entries

private theorem DeclaredAs.later {entry declared : String × Ty} (precedes : store.Precedes grown)
    (same : DeclaredAs store entry declared) : DeclaredAs grown entry declared :=
  ⟨same.name, precedes.leads same.flat.ne_var same.leads, same.flat⟩

/-- Declared types are still found behind the links of a later store. -/
theorem Declares.later (precedes : store.Precedes grown) (declares : env.Declares store scope) :
    env.Declares grown scope :=
  declares.imp fun _ _ same => same.later precedes

/-- The types in scope are over the store if links lead from them to what is declared. -/
theorem Declares.owned (declares : env.Declares store scope) : env.Over store := by
  intro name ty bound
  obtain ⟨declared, same⟩ := forall₂_exists_right declares (Bindings.mem_of_get? bound)
  exact same.leads.start_over same.flat

private theorem Declares.map_denote (declares : env.Declares store scope)
    (respects : model.Respects store) :
    env.map (Ty.denote model) = scope.map (Ty.ground model.reading model.values) := by
  unfold Bindings.map
  congr 1
  refine map_eq_map_of_forall₂ declares fun entry declared same => ?_
  rw [same.name, same.leads.denote_eq respects, Ty.denote_eq_ground same.flat.closed]

/-- Replaces parameters in the resolved type of an entry. -/
def substituteEntry (bindings : Bindings Static.Expr) (entry : String × Ty) :
    CheckM (String × Ty) := do
  let value ← onTypes (TypeStore.substitute bindings entry.2)
  pure (entry.1, value)

private theorem substituteEntries_run (bindings : Bindings Static.Expr)
    {entries declared : List (String × Ty)}
    (same : List.Forall₂ (DeclaredAs store) entries declared) :
    ∀ checker : Checker, checker.types.WellFormed → store.Precedes checker.types →
      ∃ types, entries.mapM (substituteEntry bindings) checker =
          .ok (declared.map fun entry => (entry.1, entry.2.substitute bindings))
            { checker with types := types } ∧ TypeStore.Shortened checker.types types := by
  induction same with
  | nil => exact fun _ _ _ => ⟨_, rfl, .refl _⟩
  | @cons entry declaration entries declared head _ ih =>
      intro checker wellFormed precedes
      have here := head.later precedes
      obtain ⟨value, middle, headRun, headShortened, resolved, resolves, result⟩ := onTypes_run
        checker (TypeStore.substitute_ends bindings wellFormed (here.leads.start_over here.flat))
      rw [resolves.eq_of_leads here.leads here.flat.ne_product] at result
      obtain ⟨types, tailRun, tailShortened⟩ := ih { checker with types := middle }
        (headShortened.wellFormed wellFormed) (precedes.trans headShortened.precedes)
      refine ⟨types, ?_, headShortened.trans tailShortened⟩
      rw [List.mapM_cons, substituteEntry, bind_assoc, bind_of_ok headRun, pure_bind, bind_of_ok tailRun,
        List.map_cons, head.name, result]
      rfl

/-- Under a condition the scope is refined as the rules say. -/
theorem assume_run (condition : Static.Expr) (wellFormed : checker.types.WellFormed)
    (declares : env.Declares checker.types scope) :
    ∃ assumed types, env.assume condition checker =
        .ok assumed { checker with types := types } ∧ TypeStore.Shortened checker.types types ∧
      assumed.Declares types (refine scope condition) := by
  unfold assume refine
  cases condition.equation? with
  | none => exact ⟨env, _, rfl, .refl _, declares⟩
  | some equation =>
      obtain ⟨name, value⟩ := equation
      obtain ⟨types, run, shortened⟩ := substituteEntries_run (Bindings.empty.insert name value)
        declares checker wellFormed (.refl _)
      refine ⟨_, types, bind_of_ok run, shortened, ?_⟩
      refine List.forall₂_same.mpr fun entry inside => ?_
      obtain ⟨declaration, member, rfl⟩ := List.mem_map.mp inside
      obtain ⟨_, same⟩ := forall₂_exists_left declares member
      have flat := same.flat.substitute (Bindings.empty.insert name value)
      exact ⟨rfl, .concrete flat.ne_var, flat⟩

/-- Under an assumed condition the wires have their declared types, refined by the condition. -/
theorem assume_checks (condition : Static.Expr) (wellFormed : checker.types.WellFormed)
    (declares : env.Declares checker.types scope) :
    Checks (env.assume condition) checker
      (fun assumed next => assumed.Declares next.types (refine scope condition)) := by
  obtain ⟨assumed, types, run, shortened, refined⟩ := assume_run condition wellFormed declares
  exact .of_ok run ⟨shortened.wellFormed wellFormed,
    ⟨shortened.precedes, ⟨[], (List.append_nil _).symm⟩, rfl, rfl⟩, refined⟩

/-! ## Wires and equations -/

/-- A type over the store may be added to the scope. -/
theorem Over.insert {ty : Ty} {name : String} (owned : env.Over store) (tyOver : ty.Over store) :
    Env.Over store (env.insert name ty) := by
  intro other found bound
  rw [Bindings.get?_insert] at bound
  split at bound
  · cases bound
    exact tyOver
  · exact owned other found bound

/-- Makes the type of a wire equal to the one declared for it, if there is one. -/
def annotate (wire : Local) (ty : Ty) : CheckM Unit :=
  match wire.declared with
  | some declared => unifyAt wire.id.span ty declared.toTy
  | none => pure ()

/-- The first local wire is brought into scope before the others are declared. -/
theorem declare_cons (env : Env) (wire : Local) (rest : List Local) :
    env.declare (wire :: rest) = (do
      let ty ← freshTy
      annotate wire ty
      let (inner, wires) ← Env.declare (env.insert wire.id.name ty) rest
      pure (inner, ⟨wire.id, ty⟩ :: wires)) := by
  rw [declare]
  congr 1
  funext ty
  unfold annotate
  cases wire.declared with
  | none => rfl
  | some declared => rfl

/-- After an annotation the type of a wire is as declared, in every model. -/
theorem annotate_checks (wire : Local) {ty : Ty} (wellFormed : checker.types.WellFormed)
    (owned : ty.Over checker.types) :
    Checks (annotate wire ty) checker (fun _ next => ∀ model : Model,
      model.Satisfies next.toUnification →
        wire.Admits model.reading model.values (ty.denote model)) := by
  unfold annotate Local.Admits
  cases wire.declared with
  | none => exact .pure wellFormed (by simp)
  | some declared =>
      have closed := declared.toTy_flat.closed
      refine (unifyAt_checks wire.id.span wellFormed owned (.of_closed closed)).imp
        fun _ _ _ _ same model satisfies => ?_
      rintro _ ⟨⟩
      rw [same model satisfies, Ty.denote_eq_ground closed]

/-- Local wires are put in scope one after another with types that admit their declarations. -/
structure Introduces (env : Env) (locals : List Local) (inner : Env) (wires : List Typed.Wire)
    (checker : Checker) : Prop where
  scope : inner = env.insertAll (wires.map fun wire => (wire.id.name, wire.ty))
  owned : inner.Over checker.types
  wiresOver : ∀ wire ∈ wires, wire.ty.Over checker.types
  ids : wires.map (·.id) = locals.map (·.id)
  annotated : ∀ model : Model, model.Satisfies checker.toUnification →
    List.Forall₂ (Local.Elaborates model) locals wires

/-- Declaring local wires brings new types into scope that are as annotated. -/
theorem declare_checks (locals : List Local) : ∀ {env : Env} {checker : Checker},
    checker.types.WellFormed → env.Over checker.types →
      Checks (env.declare locals) checker
        (fun result next => env.Introduces locals result.1 result.2 next) := by
  induction locals with
  | nil =>
      intro env checker wellFormed owned
      exact .pure wellFormed ⟨rfl, owned, by simp, rfl, fun _ _ => .nil⟩
  | cons wire rest ih =>
      intro env checker wellFormed owned
      rw [declare_cons]
      refine .bind (freshTy_checks wellFormed) fun ty _ wellFormed freshGrows tyOver => ?_
      refine .bind (annotate_checks wire wellFormed tyOver)
        fun _ annotated wellFormed annotateGrows admits => ?_
      have grows := freshGrows.trans annotateGrows
      have tyOver := annotateGrows.types.owned tyOver
      refine .bind (ih wellFormed ((owned.later grows.types).insert tyOver))
        fun result last wellFormed restGrows introduces => ?_
      obtain ⟨inner, wires⟩ := result
      obtain ⟨scope, innerOver, wiresOver, ids, restAnnotated⟩ := introduces
      refine .pure wellFormed ⟨scope, innerOver, ?_, congrArg (wire.id :: ·) ids,
        fun model satisfies => ?_⟩
      · exact List.forall_mem_cons.mpr ⟨restGrows.types.owned tyOver, wiresOver⟩
      · exact .cons ⟨rfl, admits model (restGrows.satisfies satisfies)⟩
          (restAnnotated model satisfies)

/-- Declared wires keep their names and their order. -/
theorem Introduces.names {locals : List Local} {inner : Env} {wires : List Typed.Wire}
    (introduces : env.Introduces locals inner wires checker) :
    locals.map (·.id.name) = wires.map (·.id.name) := by
  have sameNames := congrArg (List.map (·.name)) introduces.ids
  rw [List.map_map, List.map_map] at sameNames
  exact sameNames.symm

/-- In a model, the scope inside a body is the scope outside with the local wires added. -/
theorem Introduces.map_denote {locals : List Local} {inner : Env} {wires : List Typed.Wire}
    (introduces : env.Introduces locals inner wires checker)
    (declares : env.Declares checker.types scope)
    (satisfies : model.Satisfies checker.toUnification) :
    inner.map (Ty.denote model) = innerScope model.reading model.values scope
      (locals.map (·.id.name)) (wires.map fun wire => wire.ty.denote model) := by
  rw [introduces.scope, Bindings.map_insertAll, declares.map_denote satisfies.respects, innerScope,
    introduces.names, List.zip_map', List.map_map]
  rfl

/-- The type of a pattern is that of its wires in scope. -/
theorem patternTy_checks (pattern : Pattern) (wellFormed : checker.types.WellFormed)
    (owned : env.Over checker.types) :
    Checks (env.patternTy pattern) checker (fun ty next => ty.Over next.types ∧
      ∀ model : Model, pattern.HasType (env.map (Ty.denote model)) (ty.denote model)) := by
  cases pattern with
  | single id =>
      refine (typeOf_checks env id wellFormed).imp fun ty next _ grows bound => ?_
      exact ⟨grows.types.owned (owned id.name ty bound), fun model => .single (by simp [bound])⟩
  | tuple ids =>
      refine .bind (Stays.mapM (fun _ bound => bound) checker wellFormed
        fun id _ middle wellFormed _ => typeOf_checks env id wellFormed)
        fun tys next wellFormed grows bound => .pure wellFormed ⟨?_, fun model => ?_⟩
      · intro id inside
        obtain ⟨ty, member, mentioned⟩ := Ty.mem_vars_product.mp inside
        obtain ⟨wire, found⟩ := forall₂_exists_left bound member
        exact grows.types.owned (owned wire.name ty found) id mentioned
      · rw [Ty.denote_product]
        refine .tuple (List.forall₂_map_right_iff.mpr (bound.imp fun id ty found => ?_))
        simp [found]

/-- The typed form of an equation obeys the rules under every model of the state, and what its calls
demand is pending. -/
structure Equates (env : Env) (catalog : Catalog) (equation : Equation) (typed : Typed.Equation)
    (checker : Checker) : Prop where
  owned : typed.value.Over checker.types
  elaborates : ∀ model : Model, model.Satisfies checker.toUnification →
    equation.Elaborates model catalog (env.map (Ty.denote model)) typed
  demanded : catalog.Demanded equation.value.calls checker.constraints.pending

private theorem Equates.later {equation : Equation} {typed : Typed.Equation}
    (grows : checker.Grows next) (equates : env.Equates catalog equation typed checker) :
    env.Equates catalog equation typed next where
  owned := equates.owned.later grows.types
  elaborates := fun model satisfies => equates.elaborates model (grows.satisfies satisfies)
  demanded := grows.demanded equates.demanded

private theorem check_checks {expected : Ty} (expr : Circuit.Expr)
    (wellFormed : checker.types.WellFormed) (closed : checker.catalog.Closed)
    (owned : env.Over checker.types) (expectedOver : expected.Over checker.types) :
    Checks (env.check expr expected) checker (fun typed next =>
      env.Infers checker.catalog expr typed next ∧ ∀ model : Model,
        model.Satisfies next.toUnification → typed.ty.denote model = expected.denote model) := by
  refine .bind (infer_checks closed expr wellFormed rfl owned)
    fun typed _ wellFormed inferGrows infers => ?_
  refine .bind (unifyAt_checks expr.span wellFormed infers.owned.ty_over
    (inferGrows.types.owned expectedOver)) fun _ _ wellFormed unifyGrows same => ?_
  exact .pure wellFormed ⟨infers.later unifyGrows, same⟩

/-- The typed form of an accepted equation obeys the rules, and the demands of its calls are
pending. -/
theorem checkEquation_checks (equation : Equation) (wellFormed : checker.types.WellFormed)
    (closed : checker.catalog.Closed) (owned : env.Over checker.types) :
    Checks (env.checkEquation equation) checker (env.Equates checker.catalog equation) := by
  refine .bind (patternTy_checks equation.pattern wellFormed owned)
    fun expected patterned wellFormed grows ⟨expectedOver, sides⟩ => ?_
  rw [← grows.catalog] at closed ⊢
  refine .bind (check_checks equation.value wellFormed closed (owned.later grows.types)
    expectedOver) fun value last wellFormed _ ⟨infers, same⟩ => ?_
  refine .pure wellFormed ⟨infers.owned, fun model satisfies =>
    ⟨rfl, rfl, infers.elaborates model satisfies, ?_⟩, infers.demanded⟩
  rw [same model satisfies]
  exact sides model

/-- The typed forms of accepted equations obey the rules in what all of them have made known. -/
theorem checkEquations_checks (equations : List Equation) (wellFormed : checker.types.WellFormed)
    (closed : checker.catalog.Closed) (owned : env.Over checker.types) :
    Checks (equations.mapM env.checkEquation) checker (fun typed next => List.Forall₂
      (fun equation typed => env.Equates checker.catalog equation typed next) equations typed) := by
  apply Stays.mapM (fun grows equates => equates.later grows) checker wellFormed
  intro equation _ middle middleWellFormed grows
  rw [← grows.catalog] at closed ⊢
  exact checkEquation_checks equation middleWellFormed closed (owned.later grows.types)

/-! ## Bodies -/

/-- The typed form of a body obeys the rules under every model of the state, and what its calls
demand is pending. -/
structure Accepts (scope : Bindings Ty) (catalog : Catalog) (block : Block) (typed : Typed.Block)
    (checker : Checker) : Prop where
  owned : typed.Over checker.types
  elaborates : ∀ model : Model, model.Satisfies checker.toUnification →
    block.Elaborates model catalog scope typed
  demanded : catalog.Demanded block.calls checker.constraints.pending

private theorem Accepts.later {block : Block} {typed : Typed.Block} (grows : checker.Grows next)
    (accepts : Accepts scope catalog block typed checker) :
    Accepts scope catalog block typed next where
  owned := accepts.owned.later grows.types
  elaborates := fun model satisfies => accepts.elaborates model (grows.satisfies satisfies)
  demanded := grows.demanded accepts.demanded

/-- The typed form of an accepted body obeys the rules, and the demands of its calls are pending. -/
theorem checkBlock_checks (closed : catalog.Closed) (block : Block) :
    ∀ {env : Env} {scope : Bindings Ty} {checker : Checker}, checker.types.WellFormed →
      checker.catalog = catalog → env.Declares checker.types scope →
      Checks (env.checkBlock block) checker (Accepts scope catalog block) := by
  induction block with
  | system span locals equations =>
      rintro env scope checker wellFormed rfl declares
      refine .bind (declare_checks locals wellFormed declares.owned)
        fun result declared wellFormed declareGrows introduces => ?_
      obtain ⟨inner, wires⟩ := result
      have sameCatalog := declareGrows.catalog
      rw [← sameCatalog] at closed ⊢
      refine .bind (checkEquations_checks equations wellFormed closed introduces.owned)
        fun typed last wellFormed grows equate => .pure wellFormed ⟨?_, ?_, ?_⟩
      · refine .system (fun wire inside => grows.types.owned (introduces.wiresOver wire inside))
          fun equation inside => ?_
        obtain ⟨_, equates⟩ := forall₂_exists_left equate inside
        exact equates.owned
      · intro model satisfies
        have before := grows.satisfies satisfies
        refine .system (introduces.annotated model before) ?_
        rw [← introduces.map_denote (declares.later declareGrows.types) before]
        exact equate.imp fun _ _ equates => equates.elaborates model satisfies
      · intro call inside
        obtain ⟨equation, member, called⟩ := List.mem_flatMap.mp inside
        obtain ⟨_, equates⟩ := forall₂_exists_right equate member
        exact equates.demanded call called
  | choice span condition onTrue onFalse ihTrue ihFalse =>
      rintro env scope checker wellFormed rfl declares
      refine .bind (expectKind_checks span condition .bool wellFormed)
        fun _ kinded wellFormed kindGrows kind => ?_
      refine .bind (assume_checks condition wellFormed (declares.later kindGrows.types))
        fun assumed _ wellFormed assumeGrows assumedDeclares => ?_
      have grows := kindGrows.trans assumeGrows
      refine .bind (ihTrue wellFormed grows.catalog assumedDeclares)
        fun typedTrue _ wellFormed trueGrows first => ?_
      have grows := grows.trans trueGrows
      refine .bind (ihFalse wellFormed grows.catalog (declares.later grows.types))
        fun typedFalse _ wellFormed falseGrows second => ?_
      have first := first.later falseGrows
      exact .pure wellFormed ⟨.choice first.owned second.owned, fun model satisfies =>
        .choice kind (first.elaborates model satisfies) (second.elaborates model satisfies),
        Catalog.demanded_append.mpr ⟨first.demanded, second.demanded⟩⟩

end Env

end CircuitWidths
