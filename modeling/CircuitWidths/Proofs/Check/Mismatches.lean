import CircuitWidths.Proofs.Check.Finality
import CircuitWidths.Proofs.Check.Standards
import CircuitWidths.Proofs.Ty.Legibility

/-!
# Mismatches name two different types

A check that stops because of a mismatch names a found and an expected type.  They are resolved,
they differ, and so do their texts, if the static names of the circuits are identifiers
(`check_mismatch_apart`).  The links that were made before the mismatch was met stay, but they do not
make the two types equal.  That types with different texts are named needs that checking keeps all
types legible; in particular it never makes the type without values, which is written like the
product of no types.
-/

namespace CircuitWidths

open CheckM Circuit

variable {owner : Nat} {checker : Checker} {α : Type}

/-- The types of all ports are legible. -/
def Signature.LegiblePorts (owner : Nat) (signature : Signature) : Prop :=
  ∀ ty ∈ signature.inputs ++ signature.outputs, ty.Legible owner

private theorem Signature.LegiblePorts.substitute {signature : Signature}
    {bindings : Bindings Static.Expr} (legible : signature.LegiblePorts owner)
    (bound : ∀ name replacement, bindings.get? name = some replacement → replacement.Legible) :
    (signature.substitute bindings).LegiblePorts owner := by
  intro ty inside
  simp only [Signature.substitute, Ty.substituteAll_eq_map, ← List.map_append] at inside
  obtain ⟨original, member, rfl⟩ := List.mem_map.mp inside
  exact (legible original member).substitute bound

/-- The two types are resolved and legible, and they differ. -/
structure TypeStore.TellsApart (owner : Nat) (store : TypeStore) (found expected : Ty) : Prop where
  foundFinal : found.Final store
  expectedFinal : expected.Final store
  foundLegible : found.Legible owner
  expectedLegible : expected.Legible owner
  differ : found ≠ expected

namespace Checker

/-- All types that are kept are legible, and the names of generated widths are identifiers. -/
structure Legible (owner : Nat) (checker : Checker) : Prop where
  stem : Text.IsIdentifier checker.settings.widthStem
  types : checker.types.Legible owner
  catalog : checker.catalog.Each (Signature.LegiblePorts owner)

/-- The check stopped for another reason than a mismatch, or the types of the mismatch are told
apart. -/
def Accounts (owner : Nat) (checker : Checker) (stop : Stop) : Prop :=
  ∀ span found expected, stop = .rejected ⟨span, .typeMismatch found expected⟩ →
    checker.types.TellsApart owner found expected

/-- Only the links matter when types are made equal. -/
theorem Legible.unifying (legible : checker.Legible owner) {state : Unification}
    (typesLegible : state.types.Legible owner) :
    Checker.Legible owner { checker with toUnification := state } :=
  ⟨legible.stem, typesLegible, legible.catalog⟩

private theorem Accounts.of_ne {stop : Stop}
    (other : ∀ span found expected, stop ≠ .rejected ⟨span, .typeMismatch found expected⟩) :
    checker.Accounts owner stop :=
  fun span found expected same => (other span found expected same).elim

end Checker

/-- Legible states are left legible, legible types are found, and mismatches are accounted for. -/
abbrev Standard.legible (owner : Nat) : Standard where
  holds := Checker.Legible owner
  follows := fun _ _ => True
  fails := fun _ stop next => next.Legible owner ∧ next.Accounts owner stop
  refl := fun _ => trivial
  trans := fun _ _ => trivial
  fails_later := fun _ failed => failed
  ty := fun _ => Ty.Legible owner
  width := fun _ => Static.Expr.Legible
  condition := fun _ _ => True
  ty_later := fun _ legible => legible
  width_later := fun _ legible => legible
  condition_later := fun _ _ => trivial

/-! ## Steps on the state -/

namespace CheckM

private theorem onTypes_legible {step : StoreM α} {returns : α → Prop}
    (preserves : Preserves (TypeStore.Legible owner) step returns) (legible : checker.Legible owner) :
    Stays (Standard.legible owner).toCourse (onTypes step) checker fun value _ => returns value := by
  refine onTypes_ends ((preserves checker.types legible.types).imp ?_ ?_)
  · exact fun value types kept => ⟨legible.unifying kept.1, trivial, kept.2⟩
  · exact fun fault types kept => ⟨legible.unifying kept, .of_ne (by simp)⟩

private theorem resolve_legible {ty : Ty} (legible : checker.Legible owner)
    (tyLegible : ty.Legible owner) :
    Stays (Standard.legible owner).toCourse (onTypes (TypeStore.resolve ty)) checker
      fun resolved _ => resolved.Legible owner :=
  (onTypes_legible (TypeStore.resolve_legible ty) legible).imp
    fun _ _ _ _ resolved => resolved tyLegible

/-- A type is shown with its links followed, also when those of other types were followed before. -/
theorem resolve_shows {types : TypeStore} (legible : checker.Legible owner)
    (walked : TypeStore.Shortened checker.types types) (ty : Ty) :
    Ends (onTypes (TypeStore.resolve ty)) { checker with types := types }
      (fun shown next => ∃ types, next = { checker with types := types } ∧
        TypeStore.Shortened checker.types types ∧ checker.types.Resolves ty shown)
      fun stop next => next.Legible owner ∧ next.Accounts owner stop := by
  refine onTypes_ends ((walked.resolve_tries legible.types.wellFormed ty).imp ?_ ?_)
  · exact fun shown types tried => ⟨types, rfl, tried.1, tried.2.2⟩
  · exact fun fault types walked =>
      ⟨legible.unifying (legible.types.shortened walked), .of_ne (by simp)⟩

/-- Two types with different resolved forms are told apart when their links have been followed. -/
theorem rejectMismatch_ends (span : Source.Span) {found expected : Ty}
    (legible : checker.Legible owner) (foundLegible : found.Legible owner)
    (expectedLegible : expected.Legible owner)
    (differ : ∀ {shown otherShown : Ty}, checker.types.Resolves found shown →
      checker.types.Resolves expected otherShown → shown ≠ otherShown)
    {returns : Unit → Checker → Prop} :
    Ends (do
        let shown ← onTypes (TypeStore.resolve found)
        let otherShown ← onTypes (TypeStore.resolve expected)
        reject span (.typeMismatch shown otherShown)) checker returns
      fun stop next => next.Legible owner ∧ next.Accounts owner stop := by
  refine .bind (resolve_shows legible (.refl checker.types) found) ?_
  rintro shown _ ⟨types, rfl, walked, resolves⟩
  refine .bind (resolve_shows legible walked expected) ?_
  rintro otherShown _ ⟨types, rfl, walked, otherResolves⟩
  refine .throw ⟨legible.unifying (legible.types.shortened walked), fun _ _ _ same => ?_⟩
  cases same
  exact {
    foundFinal := (Ty.Final.of_resolves resolves).shortened walked
    expectedFinal := (Ty.Final.of_resolves otherResolves).shortened walked
    foundLegible := legible.types.resolves foundLegible resolves
    expectedLegible := legible.types.resolves expectedLegible otherResolves
    differ := differ resolves otherResolves }

private theorem unifyAt_legible {span : Source.Span} {found expected : Ty}
    (legible : checker.Legible owner) (foundLegible : found.Legible owner)
    (expectedLegible : expected.Legible owner) :
    Stays (Standard.legible owner).toCourse (unifyAt span found expected) checker
      fun _ _ => True := by
  have ends := Unification.unify_legible foundLegible expectedLegible checker.toUnification
    legible.types
  cases outcome : Unification.unify found expected checker.toUnification with
  | ok value state =>
      exact .of_ok (unifyAt_run outcome)
        ⟨legible.unifying (ends.returned outcome).1, trivial, trivial⟩
  | error error state =>
      have settled : Checker.Legible owner { checker with toUnification := state } :=
        legible.unifying (ends.failed outcome)
      have run : tryUnify found expected checker =
          .ok (.error error) { checker with toUnification := state } := by rw [tryUnify, outcome]
      refine Ends.after run ?_
      cases error with
      | resultArity foundCount expectedCount => exact .throw ⟨settled, .of_ne (by simp)⟩
      | fault fault => exact .throw ⟨settled, .of_ne (by simp)⟩
      | mismatch =>
          exact rejectMismatch_ends span settled foundLegible expectedLegible
            (Unification.unify_refused_ne legible.types.wellFormed outcome)

end CheckM

/-! ## Checking keeps types legible -/

namespace Standard

private theorem kept_legible (owner : Nat) : (legible owner).Kept where
  bit := fun _ => .bit
  bits := .bits
  product := .product
  literal := fun _ _ => Static.Expr.legible_int
  sum := fun left right => Static.Expr.legible_binary.mpr ⟨left, right⟩
  slice := by
    intro _ first last firstLegible lastLegible
    apply Static.Expr.Legible.simplify
    simp only [Static.Expr.legible_binary]
    exact ⟨⟨lastLegible, firstLegible⟩, Static.Expr.legible_int⟩
  relation := fun _ _ _ => trivial
  rejects := by
    intro checker span cause legible other
    refine ⟨legible, .of_ne fun _ found expected same => ?_⟩
    cases same
    exact other found expected rfl
  freshTy := by
    intro checker legible
    obtain ⟨tyLegible, typesLegible⟩ := legible.types.fresh
    exact .of_ok rfl ⟨legible.unifying typesLegible, trivial, tyLegible⟩
  resolve := resolve_legible
  unifyAt := unifyAt_legible
  emit := fun legible _ =>
    .of_ok rfl ⟨⟨legible.stem, legible.types, legible.catalog⟩, trivial, trivial⟩

private theorem generates_legible (owner : Nat) : (legible owner).Generates := by
  intro checker count legible
  refine .of_ok rfl ⟨⟨legible.stem, legible.types, legible.catalog⟩, trivial, fun index _ => ?_⟩
  exact Static.Expr.legible_var.mpr (legible.stem.append_repr (checker.nextWidth + index))

private theorem answers_legible (owner : Nat) (checker : Checker) :
    (legible owner).Answers checker := by
  intro middle legible _ name args signature instantiated written
  obtain ⟨original, known, _, rfl⟩ := Catalog.exists_of_instantiate instantiated
  refine ⟨(legible.catalog _ original known).substitute ?_, fun _ _ => trivial⟩
  intro param replacement bound
  exact written replacement (List.of_mem_zip (Bindings.mem_of_get?_ofList bound)).2

private theorem guard_legible {condition : Static.Expr} (written : condition.Legible) :
    (legible owner).Guard condition := by
  intro _ name value equation _ ty tyLegible
  obtain rfl := Static.Expr.equation?_eq_some equation
  refine tyLegible.substitute fun other replacement found => ?_
  rw [Bindings.get?_insert] at found
  split at found
  · cases found
    exact (Static.Expr.legible_binary.mp written).2
  · cases found

private theorem settles_legible (owner : Nat) (node : Node) : (legible owner).Settles node where
  register := by
    intro checker inputs outputs constraints legible ports
    have legiblePorts : (node.signature inputs outputs constraints).LegiblePorts owner := by
      intro ty inside
      rw [Node.signature, ← List.map_append] at inside
      obtain ⟨wire, member, rfl⟩ := List.mem_map.mp inside
      exact ports wire member
    exact .of_ok rfl ⟨⟨legible.stem, legible.types,
      Catalog.Each.register legible.catalog legiblePorts⟩, trivial, trivial⟩
  drain := fun legible =>
    .of_ok rfl ⟨⟨legible.stem, legible.types, legible.catalog⟩, trivial, trivial⟩
  finish := by
    intro checker body legible bodyLegible
    refine (onTypes_legible (Typed.Block.resolve_keeps ?_ bodyLegible) legible).imp
      fun _ _ _ _ _ => trivial
    intro ty tyLegible store storeLegible
    exact (TypeStore.resolve_legible ty store storeLegible).imp
      (fun _ _ resolved => ⟨resolved.1, resolved.2 tyLegible⟩) fun _ _ failed => failed

end Standard

namespace Circuit

namespace Node

variable {node : Node}

/-- The check of a node accounts for a mismatch. -/
theorem checkDefinition_legible (written : ∀ static ∈ node.statics, static.Legible)
    (legible : checker.Legible owner) :
    Stays (Standard.legible owner).toCourse node.checkDefinition checker fun _ _ => True := by
  obtain ⟨portsWritten, bodyWritten⟩ := List.forall_mem_append.mp written
  refine checkDefinition_stays (Standard.kept_legible owner) (Standard.generates_legible owner)
    (Standard.settles_legible owner node) (fun _ => Standard.answers_legible owner _) ?_ ?_ legible
  · exact fun port inside width mentioned _ =>
      portsWritten width (List.mem_flatMap.mpr ⟨port, inside, mentioned⟩)
  · exact Block.abides_of_statics (fun static inside _ => bodyWritten static inside)
      (fun static inside _ _ => bodyWritten static inside)
      fun static inside => Standard.guard_legible (bodyWritten static inside)

/-- Whether the node is accepted or not, the state after its check is legible. -/
theorem check_legible (written : ∀ static ∈ node.statics, static.Legible)
    (legible : checker.Legible owner) : (finalState (node.check checker)).Legible owner := by
  have ends := checkDefinition_legible written legible
  cases run : node.checkDefinition checker with
  | ok typed next =>
      rw [check, run]
      exact (ends.returned run).1
  | error stop next =>
      obtain ⟨stem, types, catalog⟩ := (ends.failed run).1
      cases stop with
      | rejected rejection =>
          rw [check, run]
          exact ⟨stem, types, catalog⟩
      | fault fault =>
          rw [check, run]
          exact ⟨stem, types, catalog⟩

end Node

end Circuit

namespace Checker

private theorem start_legible {settings : CheckSettings}
    (stem : Text.IsIdentifier settings.widthStem) : (start settings).Legible 0 where
  stem := stem
  types := .empty 0
  catalog := fun _ _ known => by cases known

private theorem Legible.afterEach {nodes : List Node} (legible : checker.Legible owner)
    (written : ∀ node ∈ nodes, ∀ static ∈ node.statics, static.Legible) :
    (checker.afterEach nodes).Legible owner := by
  induction nodes generalizing checker with
  | nil => exact legible
  | cons node nodes ih =>
      obtain ⟨nodeWritten, othersWritten⟩ := List.forall_mem_cons.mp written
      exact ih (Node.check_legible nodeWritten legible) othersWritten

end Checker

/-- **A mismatch names two different types.**  In any session over circuits whose static names are
identifiers, if the check of a node stops because of a mismatch, then following links changes neither
of the two types that are named, they differ, and their texts differ.  The diagnostic shows these
texts. -/
theorem Circuit.Node.check_mismatch_apart {settings : CheckSettings} {earlier : List Node}
    {node : Node} {span : Source.Span} {found expected : Ty} {next : Checker}
    (stem : Text.IsIdentifier settings.widthStem)
    (written : ∀ other ∈ earlier ++ [node], ∀ static ∈ other.statics, static.Legible)
    (stopped : node.checkDefinition ((Checker.start settings).afterEach earlier) =
      .error (.rejected ⟨span, .typeMismatch found expected⟩) next) :
    found.FixedIn next.types ∧ expected.FixedIn next.types ∧ found ≠ expected ∧
      found.render ≠ expected.render ∧ ∃ diagnostic,
        node.check ((Checker.start settings).afterEach earlier) =
          .error .reported (next.dropConstraints.report diagnostic) ∧
        diagnostic.title = "type mismatch" ∧
        diagnostic.primary = ⟨.error, span,
          "found type `" ++ found.render ++ "`, expected `" ++ expected.render ++ "`"⟩ := by
  obtain ⟨earlierWritten, nodeWritten⟩ := List.forall_mem_append.mp written
  have begun := (Checker.start_legible stem).afterEach earlierWritten
  obtain ⟨legible, accounts⟩ :=
    (checkDefinition_legible (nodeWritten node List.mem_cons_self) begun).failed stopped
  have apart := accounts span found expected rfl
  refine ⟨apart.foundFinal.fixedIn legible.types.wellFormed,
    apart.expectedFinal.fixedIn legible.types.wellFormed, apart.differ, fun same => ?_, ?_⟩
  · exact apart.differ (apart.foundLegible.render_injective apart.expectedLegible same)
  · have parts := Rejection.toDiagnostic_eq ⟨span, .typeMismatch found expected⟩ node.id
    exact ⟨_, by rw [check, stopped], congrArg Diagnostic.title parts,
      congrArg Diagnostic.primary parts⟩

namespace Circuit.Node

/-- Gives a bus and a bit. -/
def busAndBit : Node :=
  let here : Source.Span := ⟨0, 0, 0⟩
  { span := here
    id := ⟨"bus_and_bit", here⟩
    params := []
    inputs := []
    outputs := [⟨⟨"p", here⟩, here, .bits (.int 3)⟩, ⟨⟨"q", here⟩, here, .bit⟩]
    body := .system here []
      [⟨here, .single ⟨"p", here⟩, .const here (.bits [true, false, true])⟩,
        ⟨here, .single ⟨"q", here⟩, .const here (.bit true)⟩] }

/-- Uses a wire for both outputs of a node together and then for the second of them. -/
def tangled : Node :=
  let here : Source.Span := ⟨0, 0, 0⟩
  let both : Expr := .call here busAndBit.id [] []
  { span := here
    id := ⟨"tangled", here⟩
    params := []
    inputs := []
    outputs := [⟨⟨"o", here⟩, here, .bit⟩]
    body := .system here [⟨⟨"a", here⟩, none⟩, ⟨⟨"c", here⟩, none⟩]
      [⟨here, .single ⟨"c", here⟩, both⟩, ⟨here, .tuple [⟨"a", here⟩, ⟨"c", here⟩], both⟩] }

/-- The first wire is given its type before the mismatch is met at the second. -/
theorem check_mismatch_apart_tangled :
    let found : Ty := .product [.bits (.int 3), .bit]
    let expected : Ty := .product [.bits (.int 3), found]
    ∃ next, tangled.checkDefinition ((Checker.start {}).afterEach [busAndBit]) =
        .error (.rejected ⟨⟨0, 0, 0⟩, .typeMismatch found expected⟩) next ∧
      found.FixedIn next.types ∧ expected.FixedIn next.types ∧ found ≠ expected ∧
      found.render ≠ expected.render ∧ ∃ diagnostic,
        tangled.check ((Checker.start {}).afterEach [busAndBit]) =
          .error .reported (next.dropConstraints.report diagnostic) ∧
        diagnostic.title = "type mismatch" ∧
        diagnostic.primary.label =
          "found type `(bit[3], bit)`, expected `(bit[3], (bit[3], bit))`" := by
  intro found expected
  have computed : failure? (tangled.checkDefinition ((Checker.start {}).afterEach [busAndBit])) =
      some (.rejected ⟨⟨0, 0, 0⟩, .typeMismatch found expected⟩) := by
    decide +kernel
  obtain ⟨next, stopped⟩ := exists_of_failure? computed
  have written : ∀ other ∈ [busAndBit] ++ [tangled], ∀ static ∈ other.statics,
      static.Legible := by
    have statics : ([busAndBit] ++ [tangled]).flatMap (·.statics) = [.int 3] := rfl
    intro other inside static mentioned
    have listed := List.mem_flatMap.mpr ⟨other, inside, mentioned⟩
    rw [statics, List.mem_singleton] at listed
    rw [listed]
    exact Static.Expr.legible_int
  obtain ⟨foundFixed, expectedFixed, differ, apart, diagnostic, checked, titled, shown⟩ :=
    check_mismatch_apart (by decide) written stopped
  refine ⟨next, stopped, foundFixed, expectedFixed, differ, apart, diagnostic, checked, titled, ?_⟩
  rw [shown]
  decide +kernel

end Circuit.Node

end CircuitWidths
