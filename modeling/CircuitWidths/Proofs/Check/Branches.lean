import CircuitWidths.Proofs.Check.Renaming
import CircuitWidths.Proofs.Ty.Determined

/-!
# Branches do not interfere

The body that is chosen where a condition holds is checked before the other one, over the same
state.  What it leaves behind are later widths, later variables and later conditions.  If all types
in scope are determined, none of this reaches the other body: whatever was chosen first, and under
whatever condition, the other body gets the same typed form and the same new conditions up to a
renaming, or is rejected in the same way (`checkBlock_choice_independent`).
-/

namespace CircuitWidths

open CheckM Circuit TypeStore

variable {checker middle next : Checker} {env : Env} {catalog : Catalog}

/-! ## What the check of a body leaves behind -/

/-- Only widths, variables, links and conditions were added. -/
structure Checker.Follows (checker next : Checker) : Prop where
  grown : checker.Extends next
  wellFormed : next.types.WellFormed
  settings : next.settings = checker.settings
  catalog : next.catalog = checker.catalog
  reported : next.reported = checker.reported
  keepTrivial : next.constraints.keepTrivial = checker.constraints.keepTrivial

namespace Env

/-- All types in scope have variables of the store only. -/
def Owned (store : TypeStore) (env : Env) : Prop := ∀ entry ∈ env.entries, entry.2.Over store

private theorem Owned.isOver {store : TypeStore} (owned : env.Owned store) : env.Over store :=
  fun _ _ bound => owned _ (Bindings.mem_of_get? bound)

private theorem Owned.later {store later : TypeStore} (precedes : store.Precedes later)
    (owned : env.Owned store) : env.Owned later :=
  fun entry inside => precedes.owned (owned entry inside)

private theorem assume_grows (condition : Static.Expr) (wellFormed : checker.types.WellFormed)
    (owned : env.Owned checker.types) :
    Checks (env.assume condition) checker (fun assumed next => assumed.Owned next.types) := by
  unfold assume
  cases condition.equation? with
  | none => exact .pure wellFormed owned
  | some equation =>
      obtain ⟨name, value⟩ := equation
      have each : ∀ entry ∈ env.entries, ∀ middle : Checker, middle.types.WellFormed →
          checker.Grows middle → Checks (substituteEntry (Bindings.empty.insert name value) entry)
            middle (fun result next => result.2.Over next.types) := by
        intro entry inside middle wellFormed grows
        have entryOver := grows.types.owned (owned entry inside)
        obtain ⟨result, types, run, shortened, resolved, resolves, rfl⟩ := onTypes_run middle
          (TypeStore.substitute_ends (Bindings.empty.insert name value) wellFormed entryOver)
        have entryRun : substituteEntry (Bindings.empty.insert name value) entry middle =
            .ok (entry.1, resolved.substitute (Bindings.empty.insert name value))
              { middle with types := types } := bind_of_ok run
        apply Ends.of_ok entryRun
        refine ⟨shortened.wellFormed wellFormed,
          ⟨shortened.precedes, ⟨[], (List.append_nil _).symm⟩, rfl, rfl⟩, ?_⟩
        intro id mentioned
        rw [Ty.vars_substitute] at mentioned
        exact shortened.precedes.owns (resolves.owned wellFormed entryOver id mentioned)
      apply Stays.bind (Stays.mapM _ checker wellFormed each)
      · intro entries next wellFormed _ related
        apply Stays.pure wellFormed
        intro entry inside
        obtain ⟨_, entryOver⟩ := forall₂_exists_left related inside
        exact entryOver
      · exact fun grows entryOver => grows.types.owned entryOver

/-- The check of a body only adds to the state, whatever the types in scope are. -/
theorem checkBlock_grows (closed : catalog.Closed) (block : Block) :
    ∀ {env : Env} {checker : Checker}, checker.types.WellFormed → checker.catalog = catalog →
      env.Owned checker.types → Checks (env.checkBlock block) checker (fun _ _ => True) := by
  induction block with
  | system span locals equations =>
      rintro env checker wellFormed rfl owned
      apply Stays.bind (declare_checks locals wellFormed owned.isOver)
      intro result declared wellFormed declareGrows introduces
      obtain ⟨inner, wires⟩ := result
      have eachChecks : ∀ equation ∈ equations, ∀ middle : Checker, middle.types.WellFormed →
          declared.Grows middle → Checks (inner.checkEquation equation) middle
            (fun _ _ => True) := by
        intro equation _ middle wellFormed grows
        have sameCatalog := (declareGrows.trans grows).catalog
        rw [← sameCatalog] at closed
        apply (checkEquation_checks equation wellFormed closed
          (introduces.owned.later grows.types)).imp
        exact fun _ _ _ _ _ => trivial
      apply Stays.bind (Stays.mapM (fun _ _ => trivial) declared wellFormed eachChecks)
      intro typed last wellFormed _ _
      exact .pure wellFormed trivial
  | choice span condition onTrue onFalse ihTrue ihFalse =>
      rintro env checker wellFormed rfl owned
      apply Stays.bind (expectKind_checks span condition .bool wellFormed)
      intro _ kinded wellFormed kindGrows _
      apply Stays.bind (assume_grows condition wellFormed (owned.later kindGrows.types))
      intro assumed _ wellFormed assumeGrows assumedOwned
      have grows := kindGrows.trans assumeGrows
      apply Stays.bind (ihTrue wellFormed grows.catalog assumedOwned)
      intro typedTrue _ wellFormed trueGrows _
      have grows := grows.trans trueGrows
      apply Stays.bind (ihFalse wellFormed grows.catalog (owned.later grows.types))
      intro typedFalse _ wellFormed _ _
      exact .pure wellFormed trivial

end Env

/-- Widths and conditions may have any form. -/
def unrestricted (stem : String) : Discipline where
  stem := stem
  first := 0
  width := fun _ _ => True
  condition := fun _ _ => True
  width_mono := fun _ _ => trivial
  condition_mono := fun _ _ => trivial
  generated := fun _ => trivial
  literal := fun _ _ => trivial
  arithmetic := fun _ _ _ => trivial
  simplify := fun _ => trivial
  relation := fun _ _ _ => trivial

/-- Nothing is asked of a body by the discipline that allows every width. -/
theorem unrestricted_governs (stem : String) (block : Block) :
    (unrestricted stem).Governs block := by
  induction block with
  | system span locals equations => exact ⟨fun _ _ _ _ _ => trivial, fun _ _ _ _ _ _ => trivial⟩
  | choice span condition onTrue onFalse ihTrue ihFalse =>
      exact ⟨fun _ _ _ _ _ _ _ => trivial, ihTrue, ihFalse⟩

/-- No type is restricted from the beginning on. -/
theorem Ty.conforms_start (ty : Ty) : ty.Conforms (.empty 0) fun _ => True :=
  ⟨fun _ _ => Nat.zero_le _, fun _ _ => trivial⟩

/-- Nothing is renamed, and of the pending conditions only the setting for trivial equations is
watched. -/
def Mirror.keeping (keep : Bool) (reported : List Diagnostic) : Mirror where
  names := Eq
  vars := Eq
  known := fun _ => True
  pending := fun constraints _ => constraints.keepTrivial = keep
  reported := reported
  names_unique := biUnique_eq
  vars_unique := biUnique_eq
  emit := fun kept _ => kept
  equate := by
    intro constraints others left right otherLeft otherRight kept _ _
    unfold Constraints.emitEqual
    by_cases skipped : left = right ∧ constraints.keepTrivial = false
    · rw [if_pos skipped]
      exact kept
    · rw [if_neg skipped]
      exact kept

namespace Mirror

variable {keep : Bool} {reported : List Diagnostic}

private theorem keeping_conditions (condition : Static.Expr) :
    (keeping keep reported).Conditions condition condition :=
  Static.Expr.renamed_self fun _ _ => rfl

private theorem keeping_tys (ty : Ty) : (keeping keep reported).Tys ty ty :=
  Ty.like_self (fun width _ => keeping_conditions width) fun _ _ => rfl

private theorem keeping_mirrors (wellFormed : checker.types.WellFormed)
    (closed : checker.catalog.Closed) :
    checker.Mirrors (keeping checker.constraints.keepTrivial checker.reported) checker where
  state :=
    { types :=
        { wellFormed := wellFormed
          otherWellFormed := wellFormed
          owns := by
            rintro id _ rfl
            rfl
          leads := by
            rintro id _ head rfl leads
            exact ⟨head, leads, keeping_tys head⟩ }
      constraints := rfl }
  freshVars := fun _ => rfl
  freshNames := fun _ => rfl
  catalog := by
    intro name _
    cases known : checker.catalog.get? name with
    | none => exact .none
    | some signature =>
        exact .some (Signature.mirrors_self (closed name signature known)
          (fun static _ => keeping_conditions static) fun _ _ => rfl)
  reported := rfl
  otherReported := rfl

end Mirror

private theorem Env.checkBlock_follows {block : Block} {typed : Typed.Block}
    (wellFormed : checker.types.WellFormed) (closed : checker.catalog.Closed)
    (owned : env.Owned checker.types) (run : env.checkBlock block checker = .ok typed next) :
    checker.Follows next := by
  have checks := Ends.returned (env.checkBlock_grows closed block wellFormed rfl owned) run
  obtain ⟨nextWellFormed, grows, _⟩ := checks
  have conforms : checker.Conforms (unrestricted checker.settings.widthStem) (.empty 0) :=
    ⟨rfl, Nat.zero_le _, .of_empty fun _ ty _ => ty.conforms_start, fun _ _ => trivial⟩
  obtain ⟨_, proceeds, _⟩ := (Discipline.checkBlock_stays (unrestricted_governs _ block) closed
    (fun _ _ _ _ _ _ _ => ⟨fun _ _ => trivial, fun _ _ => trivial⟩) conforms
    fun entry _ => entry.2.conforms_start).returned run
  have inStep := env.checkBlock_mirrored block
    ⟨fun static _ => Mirror.keeping_conditions static, fun _ _ => trivial⟩
    (Mirror.keeping_mirrors wellFormed closed)
    (List.forall₂_same.mpr fun entry inside => ⟨rfl, Mirror.keeping_tys entry.2, owned entry inside⟩)
  rw [run] at inStep
  cases inStep with
  | returned related =>
      obtain ⟨mirrors, _, _⟩ := related
      exact ⟨⟨proceeds.nextWidth, grows.types⟩, nextWellFormed, grows.settings, grows.catalog,
        mirrors.reported, mirrors.state.constraints⟩

/-! ## The chosen body -/

/-- Checks the body that is chosen where the condition holds. -/
def Env.checkChosen (env : Env) (span : Source.Span) (condition : Static.Expr) (block : Block) :
    CheckM Typed.Block := do
  expectKind span condition .bool
  let assumed ← env.assume condition
  assumed.checkBlock block

private theorem Env.checkBlock_choice (env : Env) (span : Source.Span) (condition : Static.Expr)
    (onTrue onFalse : Block) :
    env.checkBlock (.choice span condition onTrue onFalse) = (do
      let typedTrue ← env.checkChosen span condition onTrue
      let typedFalse ← env.checkBlock onFalse
      pure (.choice span condition typedTrue typedFalse)) := by
  simp only [checkBlock, checkChosen, bind_assoc]

private theorem Env.checkChosen_follows {span : Source.Span} {condition : Static.Expr}
    {block : Block} {typed : Typed.Block} (wellFormed : checker.types.WellFormed)
    (closed : checker.catalog.Closed) (owned : env.Owned checker.types)
    (run : env.checkChosen span condition block checker = .ok typed next) :
    checker.Follows next := by
  -- An empty body on the other side changes nothing.
  have whole : env.checkBlock (.choice span condition block (.system span [] [])) checker =
      .ok (.choice span condition typed (.system span [] [])) next := by
    rw [checkBlock_choice, bind_of_ok run]
    rfl
  exact checkBlock_follows wellFormed closed owned whole

/-! ## Two states that follow the same one -/

/-- All types in scope resolve to types without variables, and no name of a width that is yet to be
generated occurs in them or in a known signature. -/
structure Env.Determined (checker : Checker) (env : Env) : Prop where
  wellFormed : checker.types.WellFormed
  closed : checker.catalog.Closed
  catalog : checker.catalog.Below checker.settings.widthStem checker.nextWidth
  entries : ∀ entry ∈ env.entries, checker.types.Determines
    (Static.Expr.Below checker.settings.widthStem checker.nextWidth) entry.2

private theorem Env.Determined.owned (determined : env.Determined checker) :
    env.Owned checker.types :=
  fun entry inside => (determined.entries entry inside).owned

/-- Names and variables are paired off; the conditions that were added to those pending at first are
renamed. -/
def Mirror.adding (names : String → String → Prop) (vars : TyVar → TyVar → Prop)
    (names_unique : Relator.BiUnique names) (vars_unique : Relator.BiUnique vars)
    (pending otherPending : List Static.Expr) (reported : List Diagnostic) : Mirror where
  names := names
  vars := vars
  known := fun _ => True
  pending := fun constraints others => constraints.keepTrivial = others.keepTrivial ∧
    ∃ added otherAdded, constraints.pending = pending ++ added ∧
      others.pending = otherPending ++ otherAdded ∧ Static.RenamedAll names added otherAdded
  reported := reported
  names_unique := names_unique
  vars_unique := vars_unique
  emit := by
    rintro constraints others condition other ⟨kept, added, otherAdded, first, second, related⟩ renamed
    refine ⟨kept, added ++ [condition], otherAdded ++ [other], ?_, ?_,
      List.rel_append related (.cons renamed .nil)⟩
    · rw [Constraints.emit, first, List.append_assoc]
    · rw [Constraints.emit, second, List.append_assoc]
  equate := by
    rintro constraints others left right otherLeft otherRight
      ⟨kept, added, otherAdded, first, second, related⟩ lefts rights
    unfold Constraints.emitEqual
    have skippedAlike : (left = right ∧ constraints.keepTrivial = false) ↔
        (otherLeft = otherRight ∧ others.keepTrivial = false) := by
      rw [kept, lefts.eq_iff names_unique rights]
    by_cases skipped : left = right ∧ constraints.keepTrivial = false
    · rw [if_pos skipped, if_pos (skippedAlike.mp skipped)]
      exact ⟨kept, added, otherAdded, first, second, related⟩
    · rw [if_neg skipped, if_neg (mt skippedAlike.mpr skipped)]
      refine ⟨kept, added ++ [.binary .eq left right], otherAdded ++ [.binary .eq otherLeft otherRight],
        ?_, ?_, List.rel_append related (.cons (.binary .eq lefts rights) .nil)⟩
      · rw [Constraints.emit, first, List.append_assoc]
      · rw [Constraints.emit, second, List.append_assoc]

namespace Checker.Follows

variable {origin : Checker} (first : origin.Follows checker) (second : origin.Follows next)

/-- Numbers that were used before the two states parted stay, and later ones are paired in the order
in which they are used. -/
def renames : Renaming := .resuming first.grown second.grown

/-- Determined variables are paired with themselves, and variables that are made later with each
other. -/
def PairedVars (id partner : TyVar) : Prop :=
  (first.renames second).Vars id partner ∧ (id.index < origin.types.size →
    origin.types.Determines (Static.Expr.Below origin.settings.widthStem origin.nextWidth) (.var id))

private theorem pairedVars_unique : Relator.BiUnique (first.PairedVars second) := by
  constructor
  · exact fun _ _ _ one other => (first.renames second).vars_biUnique.1 one.1 other.1
  · exact fun _ _ _ one other => (first.renames second).vars_biUnique.2 one.1 other.1

/-- How the two states go on. -/
def mirror : Mirror :=
  .adding ((first.renames second).Names origin.settings.widthStem) (first.PairedVars second)
    ((first.renames second).names_unique origin.settings.widthStem) (first.pairedVars_unique second)
    checker.constraints.pending next.constraints.pending origin.reported

private theorem tys_renamed {ty other : Ty} (like : (first.mirror second).Tys ty other) :
    (first.renames second).Tys origin.settings.widthStem ty other := by
  apply Ty.Like.imp _ _ like
  · exact fun _ _ widths => widths
  · exact fun _ _ paired => paired.1

private theorem pairedVars_self {id : TyVar} (determined : origin.types.Determines
    (Static.Expr.Below origin.settings.widthStem origin.nextWidth) (.var id)) :
    first.PairedVars second id id := by
  have owned := determined.owned id (by simp)
  exact ⟨⟨rfl, .inl ⟨(owns_iff.mp owned).2, rfl⟩⟩, fun _ => determined⟩

private theorem determined_like {ty : Ty} (determined : origin.types.Determines
    (Static.Expr.Below origin.settings.widthStem origin.nextWidth) ty) :
    (first.mirror second).Tys ty ty :=
  determined.like_self (fun _ below => below.renamed_resuming)
    fun _ varDetermined => first.pairedVars_self second varDetermined

private theorem mirrors (closed : origin.catalog.Closed)
    (below : origin.catalog.Below origin.settings.widthStem origin.nextWidth) :
    checker.Mirrors (first.mirror second) next where
  state :=
    { types := by
        apply Determines.stores_like first.grown.types second.grown.types first.wellFormed
          second.wellFormed (fun _ below => below.renamed_resuming)
          fun _ determined => first.pairedVars_self second determined
        rintro ⟨owner, index⟩ ⟨otherOwner, otherIndex⟩ ⟨⟨sameOwner, moved⟩, determined⟩
        rcases moved with ⟨old, same⟩ | ⟨made, moved⟩
        · obtain rfl : owner = otherOwner := sameOwner
          obtain rfl : otherIndex = index := same
          exact .inl ⟨rfl, determined old⟩
        · refine .inr ⟨fun owned => ?_, fun owned => ?_⟩
          · have low := (owns_iff.mp owned).2
            omega
          · have low := (owns_iff.mp owned).2
            omega
      constraints := ⟨first.keepTrivial.trans second.keepTrivial.symm, [], [],
        (List.append_nil _).symm, (List.append_nil _).symm, .nil⟩ }
  freshVars := by
    intro count
    have owners := first.grown.types.owner.trans second.grown.types.owner.symm
    refine ⟨⟨owners, .inr ⟨Nat.le_add_right _ _, ?_⟩⟩, fun old => ?_⟩
    · show next.types.size + count + checker.types.size = checker.types.size + count + next.types.size
      omega
    · have old : checker.types.size + count < origin.types.size := old
      have size := first.grown.types.size
      omega
  freshNames := by
    intro count
    rw [first.settings, second.settings]
    refine .inl ⟨_, _, .inr ⟨Nat.le_add_right _ _, ?_⟩, rfl, rfl⟩
    omega
  catalog := by
    intro name _
    rw [first.catalog, second.catalog]
    cases known : origin.catalog.get? name with
    | none => exact .none
    | some signature =>
        exact .some ((below name signature known).mirrors_self (closed name signature known) rfl)
  reported := first.reported
  otherReported := second.reported

/-- A body whose types in scope are determined is checked in step in the two states. -/
theorem checkBlock (determined : env.Determined origin) {block : Block}
    (spares : ∀ static ∈ block.statics, static.Spares origin.settings.widthStem) :
    Mirrored (first.mirror second) checker (fun typed other store =>
        typed.Like ((first.mirror second).TysOver store) other)
      (env.checkBlock block checker) (env.checkBlock block next) := by
  apply Env.checkBlock_mirrored block _ (first.mirrors second determined.closed determined.catalog)
  · apply List.forall₂_same.mpr
    intro entry inside
    have entryDetermined := determined.entries entry inside
    exact ⟨rfl, first.determined_like second entryDetermined,
      first.grown.types.owned entryDetermined.owned⟩
  · constructor
    · exact fun static inside => ((spares static inside).below _).renamed_resuming
    · exact fun _ _ => trivial

end Checker.Follows

/-! ## Choices -/

/-- The typed bodies are the same up to the renaming, before and after their types are resolved, and
so are the conditions that were added while they were checked. -/
structure Typed.Block.AddedAlike (renames : Renaming) (stem : String) (middle otherMiddle : Checker)
    (typed : Typed.Block) (final : Checker) (other : Typed.Block) (otherFinal : Checker) : Prop where
  like : typed.Like (renames.Tys stem) other
  resolved : ∃ resolved otherResolved last otherLast,
    onTypes typed.resolve final = .ok resolved last ∧
    onTypes other.resolve otherFinal = .ok otherResolved otherLast ∧
    resolved.Like (renames.Tys stem) otherResolved
  added : ∃ added otherAdded,
    final.constraints.pending = middle.constraints.pending ++ added ∧
    otherFinal.constraints.pending = otherMiddle.constraints.pending ++ otherAdded ∧
    List.Forall₂ (renames.Conditions stem) added otherAdded

private theorem Checker.Follows.addedAlike {origin : Checker} (first : origin.Follows middle)
    {otherMiddle final otherFinal : Checker} (second : origin.Follows otherMiddle)
    (mirrors : final.Mirrors (first.mirror second) otherFinal) {typed other : Typed.Block}
    (like : typed.Like ((first.mirror second).TysOver final.types) other) :
    typed.AddedAlike (first.renames second) origin.settings.widthStem middle otherMiddle final other
      otherFinal where
  like := like.imp fun _ _ types => first.tys_renamed second types.like
  resolved := by
    have inStep := resolveBody_mirrored mirrors like
    have ends := Typed.Block.resolve_like mirrors.state.types.wellFormed
      (like.isOver fun _ _ types => types.owned) (.refl _)
    obtain ⟨resolved, types, run, _, _⟩ := onTypes_run final ends
    rw [run] at inStep
    generalize onTypes other.resolve otherFinal = otherOutcome at inStep ⊢
    cases inStep with
    | @returned _ otherResolved _ otherLast related =>
        refine ⟨resolved, otherResolved, _, otherLast, run, rfl, ?_⟩
        exact related.2.2.imp fun _ _ types => first.tys_renamed second types.like
  added := mirrors.state.constraints.2

namespace Env

variable {otherMiddle : Checker} {span otherSpan : Source.Span}
  {condition otherCondition : Static.Expr} {onTrue otherTrue onFalse : Block}
  {typedTrue otherTypedTrue : Typed.Block}

/-- **Branches do not interfere.**  Let the types in scope be determined, and let two bodies be
accepted where two conditions are assumed.  Then the body on the other side is accepted after both
or after neither.  Its typed form and the conditions that are added for it are the same up to a
renaming of generated widths and type variables, or it is rejected at the same place and for a
reason of the same kind.  So neither the condition that was assumed nor the body that was chosen
has an effect on the other side. -/
theorem checkBlock_choice_independent (determined : env.Determined checker)
    (spares : ∀ static ∈ onFalse.statics, static.Spares checker.settings.widthStem)
    (chosen : env.checkChosen span condition onTrue checker = .ok typedTrue middle)
    (otherChosen : env.checkChosen otherSpan otherCondition otherTrue checker =
      .ok otherTypedTrue otherMiddle) :
    ∃ renames : Renaming,
      (∃ typedFalse otherFalse final otherFinal,
        env.checkBlock (.choice span condition onTrue onFalse) checker =
          .ok (.choice span condition typedTrue typedFalse) final ∧
        env.checkBlock (.choice otherSpan otherCondition otherTrue onFalse) checker =
          .ok (.choice otherSpan otherCondition otherTypedTrue otherFalse) otherFinal ∧
        typedFalse.AddedAlike renames checker.settings.widthStem middle otherMiddle final otherFalse
          otherFinal) ∨
      ∃ (rejection other : Rejection) (final otherFinal : Checker),
        env.checkBlock (.choice span condition onTrue onFalse) checker =
          .error (.rejected rejection) final ∧
        env.checkBlock (.choice otherSpan otherCondition otherTrue onFalse) checker =
          .error (.rejected other) otherFinal ∧
        rejection.Like (renames.Tys checker.settings.widthStem)
          (renames.Conditions checker.settings.widthStem) other := by
  have first := checkChosen_follows determined.wellFormed determined.closed determined.owned chosen
  have second := checkChosen_follows determined.wellFormed determined.closed determined.owned
    otherChosen
  have inStep := first.checkBlock second determined spares
  have grows := checkBlock_grows determined.closed onFalse first.wellFormed first.catalog
    (determined.owned.later first.grown.types)
  rw [checkBlock_choice, checkBlock_choice, bind_of_ok chosen, bind_of_ok otherChosen]
  refine ⟨first.renames second, ?_⟩
  generalize run : env.checkBlock onFalse middle = outcome at inStep
  generalize otherRun : env.checkBlock onFalse otherMiddle = otherOutcome at inStep
  cases inStep with
  | @returned typedFalse otherFalse final otherFinal related =>
      obtain ⟨mirrors, _, like⟩ := related
      exact .inl ⟨typedFalse, otherFalse, final, otherFinal, bind_of_ok run, bind_of_ok otherRun,
        first.addedAlike second mirrors like⟩
  | @failed stop other final otherFinal stopped =>
      obtain ⟨_, like⟩ := stopped
      obtain ⟨rejection, rfl⟩ := (Ends.failed grows run).rejected
      cases like with
      | @rejected _ otherRejection alike =>
          refine .inr ⟨rejection, otherRejection, final, otherFinal, bind_of_error run,
            bind_of_error otherRun, ?_⟩
          exact alike.imp (fun _ _ types => first.tys_renamed second types) fun _ _ renamed => renamed

end Env

private theorem Circuit.Node.introduce_settings {node : Node}
    {ports : List Typed.Wire × List Typed.Wire} (wellFormed : checker.types.WellFormed)
    (run : node.introduce checker = .ok ports next) :
    next.settings = checker.settings := by
  obtain ⟨types, rfl, _⟩ := (node.introduce_ends wellFormed).returned run
  rfl

/-- The types of the ports of a node are determined. -/
theorem Circuit.Node.introduce_determined {settings : CheckSettings} {node : Node}
    {inputs outputs : List Typed.Wire} (session : checker.Session settings)
    (spares : node.Spares settings.widthStem)
    (run : node.introduce checker = .ok (inputs, outputs) next) :
    (portEnv inputs outputs).Determined next := by
  have ready := session.reached.ready
  have named := session.numbers.named
  obtain ⟨types, rfl, introduced⟩ := (node.introduce_ends ready.types).returned run
  have declares := portEnv_declares introduced.inputsWired introduced.outputsWired
  refine ⟨introduced.wellFormed, node.callable_closed ready.catalog, ?_, ?_⟩
  · show (node.callable checker.catalog).Below checker.settings.widthStem checker.nextWidth
    rw [named]
    exact spares.callable_below session.numbers.catalog
  · intro entry inside
    obtain ⟨declared, member, same⟩ := forall₂_exists_mem_right declares inside
    apply Determines.of_leads_closed same.leads same.flat.ne_product same.flat.closed
    intro width written
    show width.Below checker.settings.widthStem checker.nextWidth
    rw [named]
    rcases Bindings.mem_insertAll member with listed | none
    · obtain ⟨port, isPort, rfl⟩ := List.mem_map.mp listed
      exact spares.ports port isPort width written checker.nextWidth
    · cases none

/-- The second branch is that of `rotate`, whether a bus is copied before it or rotated before it, so
that its widths have other numbers. -/
theorem Env.checkBlock_choice_independent_rotate :
    let here : Source.Span := ⟨0, 0, 0⟩
    let single : Static.Expr := .binary .eq (.var "n") (.int 1)
    let several : Static.Expr := .binary .lt (.int 1) (.var "n")
    let copied : Block := .system here []
      [⟨here, .single ⟨"turned", here⟩, .wire here ⟨"bus", here⟩⟩]
    ∃ inputs outputs checker, Node.rotate.introduce (.start {}) = .ok (inputs, outputs) checker ∧
      (portEnv inputs outputs).Determined checker ∧
      (∀ static ∈ Node.rotate.body.statics, static.Spares checker.settings.widthStem) ∧
      ∃ typedTrue otherTrue middle otherMiddle,
        (portEnv inputs outputs).checkChosen here single copied checker = .ok typedTrue middle ∧
        (portEnv inputs outputs).checkChosen here several Node.rotate.body checker =
          .ok otherTrue otherMiddle ∧
        ∃ (renames : Renaming) (typedFalse otherFalse : Typed.Block) (final otherFinal : Checker),
          (portEnv inputs outputs).checkBlock (.choice here single copied Node.rotate.body) checker =
            .ok (.choice here single typedTrue typedFalse) final ∧
          (portEnv inputs outputs).checkBlock
              (.choice here several Node.rotate.body Node.rotate.body) checker =
            .ok (.choice here several otherTrue otherFalse) otherFinal ∧
          typedFalse.AddedAlike renames "$w" middle otherMiddle final otherFalse otherFinal := by
  intro here single several copied
  have spares : Node.rotate.Spares "$w" := by
    have overOwn : Node.rotate.OverParams := by
      simp [Node.OverParams, Node.statics, Node.rotate, DeclaredTy.statics, DeclaredTy.toTy,
        Ty.widths, Block.statics, Local.statics, Expr.statics, Expr.staticsAll, Operator.statics,
        Static.Expr.mentions, Node.paramNames]
    exact overOwn.spares (by decide)
  have accepts : ∀ condition onTrue onFalse, hasReturned ((Node.rotate.introduce >>= fun ports =>
      (portEnv ports.1 ports.2).checkBlock (.choice here condition onTrue onFalse)) (.start {})) →
      ∃ inputs outputs checker typed final typedTrue middle,
        Node.rotate.introduce (.start {}) = .ok (inputs, outputs) checker ∧
        (portEnv inputs outputs).checkBlock (.choice here condition onTrue onFalse) checker =
          .ok typed final ∧
        (portEnv inputs outputs).checkChosen here condition onTrue checker =
          .ok typedTrue middle := by
    intro condition onTrue onFalse returned
    obtain ⟨typed, final, accepted⟩ := exists_of_hasReturned returned
    obtain ⟨⟨inputs, outputs⟩, checker, run, accepted⟩ := exists_of_bind_ok accepted
    have split := accepted
    rw [checkBlock_choice] at split
    obtain ⟨typedTrue, middle, chosen, _⟩ := exists_of_bind_ok split
    exact ⟨inputs, outputs, checker, typed, final, typedTrue, middle, run, accepted, chosen⟩
  obtain ⟨inputs, outputs, checker, typed, final, typedTrue, middle, run, accepted, chosen⟩ :=
    accepts single copied Node.rotate.body (by decide +kernel)
  obtain ⟨_, _, _, _, _, otherTrue, otherMiddle, sameRun, _, otherChosen⟩ :=
    accepts several Node.rotate.body Node.rotate.body (by decide +kernel)
  cases run.symm.trans sameRun
  have determined := Node.introduce_determined .start spares run
  have named : checker.settings.widthStem = "$w" := by
    rw [Node.introduce_settings (Checker.start_ready {}).types run]
    rfl
  have bodySpares : ∀ static ∈ Node.rotate.body.statics,
      static.Spares checker.settings.widthStem := by
    rw [named]
    exact fun static inside => spares.statics static (List.mem_append_right _ inside)
  refine ⟨inputs, outputs, checker, run, determined, bodySpares, typedTrue, otherTrue, middle,
    otherMiddle, chosen, otherChosen, ?_⟩
  obtain ⟨renames, same | ⟨_, _, _, _, rejected, _⟩⟩ :=
    checkBlock_choice_independent determined bodySpares chosen otherChosen
  · rw [named] at same
    exact ⟨renames, same⟩
  · cases accepted.symm.trans rejected

end CircuitWidths
