import CircuitWidths.Proofs.Check.Branches
import CircuitWidths.Proofs.Check.Moments
import CircuitWidths.Proofs.Check.Registrations

/-!
# Declared types and final types

Ports have their declared types, whatever the body of the node does with them.  The types in a typed
node are resolved, and no variable that is left in them is ever linked: later nodes only link
variables of their own.  So resolving these types again changes nothing, after any number of later
checks (`Circuit.Node.check_final`).
-/

namespace CircuitWidths

open CheckM Circuit

/-! ## Resolved types -/

/-- The variables of the type have no links. -/
def Ty.Final (store : TypeStore) (ty : Ty) : Prop := ∀ id ∈ ty.vars, store.Unlinked id

/-- Resolving gives the type back. -/
def Ty.FixedIn (store : TypeStore) (ty : Ty) : Prop :=
  ∃ next, TypeStore.resolve ty store = .ok ty next

namespace Ty.Final

variable {store next : TypeStore} {ty head resolved : Ty}

private theorem of_closed (closed : ty.vars = []) : ty.Final store := by
  intro id inside
  rw [closed] at inside
  cases inside

/-- Links are followed to the end in a resolved type. -/
theorem of_resolves (resolves : store.Resolves ty resolved) : resolved.Final store := by
  induction resolves with
  | @leaf ty head leads flat =>
      cases head with
      | unit | bit | bits _ => exact of_closed rfl
      | product members => exact (flat members rfl).elim
      | var id =>
          intro other inside
          obtain rfl := Ty.mem_vars_var.mp inside
          exact leads.unlinked
  | product _ length _ ih =>
      intro id inside
      obtain ⟨result, member, mentioned⟩ := Ty.mem_vars_product.mp inside
      have each := List.forall₂_iff_zip.mpr ⟨length, ih⟩
      obtain ⟨_, _, final⟩ := forall₂_exists_mem_right each.flip member
      exact final id mentioned

private theorem head_eq (final : ty.Final store) (leads : store.Leads ty head) : head = ty := by
  cases leads with
  | concrete _ => rfl
  | free _ => rfl
  | follow linked _ => exact (linked.not_unlinked (final _ (Ty.mem_vars_var.mpr rfl))).elim

private theorem resolved_eq (final : ty.Final store) (resolves : store.Resolves ty resolved) :
    resolved = ty := by
  induction resolves with
  | leaf leads _ => exact final.head_eq leads
  | @product ty members results leads length _ ih =>
      obtain rfl := final.head_eq leads
      have same : List.Forall₂ (· = ·) members results := by
        apply forall₂_imp_of_mem (List.forall₂_iff_zip.mpr ⟨length, ih⟩)
        intro member inside result unchanged
        have memberFinal : member.Final store := fun id mentioned =>
          final id (Ty.mem_vars_product.mpr ⟨member, inside, mentioned⟩)
        exact (unchanged memberFinal).symm
      rw [List.forall₂_eq_eq_eq] at same
      rw [same]

/-- Following links changes nothing in a final type. -/
theorem fixedIn (final : ty.Final store) (wellFormed : store.WellFormed) : ty.FixedIn store := by
  have owned : ty.Over store := fun id inside => (final id inside).owns
  obtain ⟨resolved, next, run, _, resolves⟩ :=
    (TypeStore.resolve_ends wellFormed owned).exists_ok
  rw [final.resolved_eq resolves] at run
  exact ⟨next, run⟩

/-- A type that is final stays so when paths are shortened. -/
theorem shortened (final : ty.Final store) (shortened : TypeStore.Shortened store next) :
    ty.Final next :=
  fun id inside => shortened.unlinked.mpr (final id inside)

/-- A type stays final as long as the variables of the store keep their links. -/
theorem kept {form : Static.Expr → Prop} (final : ty.Final store)
    (conforms : TypeStore.Conforms store form next) : ty.Final next := by
  intro id inside
  have unlinked := final id inside
  have old : id.index < store.size := (TypeStore.owns_iff.mp unlinked.owns).2
  rw [TypeStore.Unlinked, conforms.kept id old]
  exact unlinked

end Ty.Final

/-! ## Regimes without restrictions -/

/-- Widths and conditions may have any form; only the catalog is watched. -/
def watching (stem : String) (known : Catalog → Prop) : Regime where
  toDiscipline := unrestricted stem
  known := fun _ catalog => known catalog
  known_mono := fun _ holds => holds
  covers := fun _ _ _ _ _ _ _ _ => ⟨fun _ _ => trivial, fun _ _ => trivial⟩

variable {checker next begun moment : Checker} {node : Node} {task : Task}

private theorem Checker.keepsTo_watching (known : Catalog → Prop) (closed : checker.catalog.Closed)
    (holds : known checker.catalog) {origin : TypeStore}
    (conforms : TypeStore.Conforms origin (fun _ => True) checker.types) :
    checker.KeepsTo (watching checker.settings.widthStem known) origin :=
  ⟨⟨rfl, Nat.zero_le _, conforms, fun _ _ => trivial⟩, closed, holds⟩

/-- While a body is checked, the known signatures stay the same. -/
theorem Task.During.body_catalog {env : Env} {block : Block} (closed : begun.catalog.Closed)
    (during : Task.During (.checkBlock env block) begun task moment) :
    moment.catalog = begun.catalog := by
  let regime := watching begun.settings.widthStem (· = begun.catalog)
  have keeps : (Task.checkBlock env block).KeepsTo regime (.empty 0) begun :=
    ⟨fun entry _ => entry.2.conforms_start, unrestricted_governs _ block⟩
  have kept : begun.KeepsTo regime (.empty 0) :=
    Checker.keepsTo_watching (· = begun.catalog) closed rfl
      (.of_empty fun _ ty _ => ty.conforms_start)
  obtain ⟨_, momentKept, _⟩ := during.keepsTo keeps kept
  exact momentKept.known

/-- Nothing is restricted. -/
def anything (stem : String) : Regime := watching stem fun _ => True

private theorem Circuit.Node.keepsTo_anything (node : Node) (stem : String) :
    node.KeepsTo (anything stem) where
  ports := fun _ _ _ _ _ => trivial
  body := unrestricted_governs stem node.body
  callable := fun _ => trivial
  final := fun _ _ _ => trivial

private theorem Checker.Ready.keepsTo_anything (ready : checker.Ready) :
    checker.KeepsTo (anything checker.settings.widthStem) checker.types :=
  Checker.keepsTo_watching _ ready.catalog trivial (.refl _)

/-- While a node is checked, no known signature has type variables. -/
theorem Task.During.closed (ready : checker.Ready)
    (during : Task.During (.checkNode node) checker task moment) :
    moment.catalog.Closed ∧ (task.after moment).catalog.Closed := by
  have keeps : (Task.checkNode node).KeepsTo (anything checker.settings.widthStem) checker.types
      checker := ⟨node.keepsTo_anything _, ready.types⟩
  obtain ⟨_, momentKept, afterKept⟩ := during.keepsTo keeps ready.keepsTo_anything
  exact ⟨momentKept.closed, afterKept.closed⟩

/-- Checks of nodes leave the older variables alone, whether the nodes are accepted or not. -/
theorem Checker.afterEach_keepsTo {stem : String} {origin : TypeStore} (nodes : List Node)
    (kept : checker.KeepsTo (anything stem) origin) (wellFormed : checker.types.WellFormed) :
    (checker.afterEach nodes).KeepsTo (anything stem) origin ∧
      (checker.afterEach nodes).types.WellFormed := by
  induction nodes generalizing checker with
  | nil => exact ⟨kept, wellFormed⟩
  | cons node nodes ih =>
      have checked : Checker.KeepsTo (anything stem) origin (finalState (node.check checker)) ∧
          (finalState (node.check checker)).types.WellFormed := by
        apply (Node.check_keepsTo (node.keepsTo_anything stem) checker ⟨kept, wellFormed⟩).final
          (fun reached => reached.KeepsTo (anything stem) origin ∧ reached.types.WellFormed)
        · exact fun _ _ returned => returned.1
        · exact fun _ _ failed => failed
      exact ih checked.1 checked.2

/-- A type that is final stays so, and resolving it gives it back, after any later checks. -/
theorem Ty.Final.afterEach {ty : Ty} (final : ty.Final checker.types) (ready : checker.Ready)
    (nodes : List Node) : ty.FixedIn (checker.afterEach nodes).types := by
  obtain ⟨kept, wellFormed⟩ := Checker.afterEach_keepsTo nodes ready.keepsTo_anything ready.types
  exact (final.kept kept.conforms.state.types).fixedIn wellFormed

/-! ## Nodes -/

namespace Circuit.Node

variable {typed : Typed.Node}

/-- The types are the declared types of the ports, in order. -/
def Declares (node : Node) (inputs outputs : List Ty) : Prop :=
  inputs = node.inputs.map (·.declared.toTy) ∧ outputs = node.outputs.map (·.declared.toTy)

/-- The node is known under its name, with the declared types of its ports. -/
def KnownIn (node : Node) (catalog : Catalog) : Prop :=
  ∃ signature, catalog.get? node.id.name = some signature ∧
    node.Declares signature.inputs signature.outputs

private theorem knownIn_callable (node : Node) (catalog : Catalog) :
    node.KnownIn (node.callable catalog) := by
  refine ⟨node.provisional, ?_, rfl, rfl⟩
  rw [callable, Catalog.get?_register, if_pos rfl]

private theorem Phases.declares (phases : node.Phases checker typed next) :
    node.Declares (typed.inputs.map (·.ty)) (typed.outputs.map (·.ty)) ∧
      node.Declares typed.signature.inputs typed.signature.outputs := by
  constructor
  · rw [phases.concluded.shape]
    simp [Declares, Port.wire, Function.comp_def]
  · rw [phases.concluded.signature]
    exact ⟨rfl, rfl⟩

/-- The types of the body of an accepted node are resolved. -/
theorem Phases.body_final (phases : node.Phases checker typed next) (ready : checker.Ready) :
    ∀ ty ∈ typed.body.tys, ty.Final next.types := by
  obtain ⟨wellFormed, _, accepts⟩ :=
    Ends.returned (phases.introduced.body_checks ready.catalog) phases.bodyRun
  obtain ⟨types, resolved⟩ := phases.concluded.resolved
  obtain ⟨_, like⟩ :=
    (Typed.Block.resolve_like wellFormed accepts.owned (.refl _)).returned resolved
  intro ty member
  obtain ⟨before, resolves⟩ := like.flip.exists_of_mem member
  exact (Ty.Final.of_resolves resolves).shortened phases.concluded.types

/-- The types of an accepted node are resolved. -/
theorem Phases.final (phases : node.Phases checker typed next) (ready : checker.Ready) :
    ∀ ty ∈ typed.tys, ty.Final next.types := by
  intro ty member
  rcases List.mem_append.mp member with inPorts | inBody
  · obtain ⟨⟨wiredInputs, wiredOutputs⟩, inputs, outputs⟩ := phases.declares
    rw [Typed.Node.portTys, List.map_append, wiredInputs, wiredOutputs, inputs, outputs,
      List.mem_append, or_self, ← List.map_append] at inPorts
    obtain ⟨port, _, rfl⟩ := List.mem_map.mp inPorts
    exact .of_closed port.declared.toTy_flat.closed
  · exact phases.body_final ready ty inBody

/-- The body is checked when the node is known with its declared types. -/
theorem begins_known {env : Env} (ready : checker.Ready)
    (involves : Task.Involves (.checkDefinition node) checker (.checkBlock env node.body) begun) :
    begun.catalog = node.callable checker.catalog := by
  cases involves with
  | node step =>
      cases step with
      | nodeBody introduceRun =>
          obtain ⟨types, rfl, _⟩ := (node.introduce_ends ready.types).returned introduceRun
          rfl
  | store step | unify step | expr step | body step | finish step => cases step

/-- Whatever comes of its check, the node is known with its declared types. -/
theorem check_knownIn (node : Node) (ready : checker.Ready) :
    node.KnownIn (finalState (node.check checker)).catalog := by
  refine ⟨node.leaves (returned? (node.check checker)), ?_, ?_⟩
  · rw [node.check_known ready, if_pos rfl]
  · cases run : node.check checker with
    | ok typed next =>
        obtain ⟨phases⟩ := node.exists_phases ready run
        exact phases.declares.2
    | error error next => exact ⟨rfl, rfl⟩

/-- **Declared types and final types.**  While the body of a node is checked, and whatever comes of
it, the node is known with its declared types.  Known signatures never have type variables.  If the
node is accepted, then its ports and its signature have the declared types, and resolving any type
of the typed node gives the type back, then and after any later checks. -/
theorem check_final (reached : checker.Reached) (node : Node) :
    (∃ env begun,
      Task.Involves (.checkDefinition node) checker (.checkBlock env node.body) begun) ∧
    (∀ env begun, Task.Involves (.checkDefinition node) checker (.checkBlock env node.body) begun →
      ∀ task moment, Task.During (.checkBlock env node.body) begun task moment →
        node.KnownIn moment.catalog) ∧
    node.KnownIn (finalState (node.check checker)).catalog ∧
    (∀ task moment, Task.During (.checkNode node) checker task moment →
      moment.catalog.Closed ∧ (task.after moment).catalog.Closed) ∧
    ∀ typed next, node.check checker = .ok typed next →
      node.Declares (typed.inputs.map (·.ty)) (typed.outputs.map (·.ty)) ∧
      node.Declares typed.signature.inputs typed.signature.outputs ∧
      ∀ later : List Node, ∀ ty ∈ typed.tys, ty.FixedIn (next.afterEach later).types := by
  have ready := reached.ready
  refine ⟨?_, ?_, node.check_knownIn ready, ?_, ?_⟩
  · obtain ⟨⟨inputs, outputs⟩, begun, introduceRun, _⟩ :=
      (node.introduce_ends ready.types).exists_ok
    exact ⟨portEnv inputs outputs, begun, .node (.nodeBody introduceRun)⟩
  · intro env begun involves task moment during
    have known := begins_known ready involves
    have closed : begun.catalog.Closed := known ▸ node.callable_closed ready.catalog
    rw [during.body_catalog closed, known]
    exact node.knownIn_callable checker.catalog
  · intro task moment during
    exact during.closed ready
  · intro typed next checked
    obtain ⟨phases⟩ := node.exists_phases ready checked
    have nextReady := ((node.check_ends ready).returned checked).ready
    refine ⟨phases.declares.1, phases.declares.2, fun later ty member => ?_⟩
    exact (phases.final ready ty member).afterEach nextReady later

/-- Passes a bit on and has a wire that is not used. -/
def idle : Node :=
  let here : Source.Span := ⟨0, 0, 0⟩
  { span := here
    id := ⟨"idle", here⟩
    params := []
    inputs := [⟨⟨"x", here⟩, here, .bit⟩]
    outputs := [⟨⟨"o", here⟩, here, .bit⟩]
    body := .system here [⟨⟨"t", here⟩, none⟩]
      [⟨here, .single ⟨"o", here⟩, .wire here ⟨"x", here⟩⟩] }

/-- The wire without a use gets the next free type variable after a rejected node, and it is still
without a link after three more checks. -/
theorem check_final_idle :
    ((Checker.start {}).afterEach [strayRelay]).Reached ∧
    ∃ typed next, idle.check ((Checker.start {}).afterEach [strayRelay]) = .ok typed next ∧
      typed.body.tys = [.var ⟨0, 3⟩, .bit] ∧
      (∀ ty ∈ typed.tys, ty.FixedIn next.types) ∧
      ∀ ty ∈ typed.tys, ty.FixedIn (next.afterEach [relay, strayRelay, idle]).types := by
  have reached : ((Checker.start {}).afterEach [strayRelay]).Reached :=
    Checker.Reached.afterEach (.start {}) [strayRelay]
  have computed : (returned? (idle.check ((Checker.start {}).afterEach [strayRelay]))).map
      (·.body.tys) = some [.var ⟨0, 3⟩, .bit] := by
    decide +kernel
  cases run : idle.check ((Checker.start {}).afterEach [strayRelay]) with
  | ok typed next =>
      rw [run] at computed
      obtain ⟨_, _, _, _, accepted⟩ := check_final reached idle
      obtain ⟨_, _, fixed⟩ := accepted typed next run
      exact ⟨reached, typed, next, rfl, Option.some.inj computed, fixed [],
        fixed [relay, strayRelay, idle]⟩
  | error error next =>
      rw [run] at computed
      cases computed

end Circuit.Node

end CircuitWidths
