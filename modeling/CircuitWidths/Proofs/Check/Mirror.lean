import CircuitWidths.Proofs.Check.Expressions
import CircuitWidths.Proofs.Check.TypedLikeness
import CircuitWidths.Proofs.Static.Renaming
import CircuitWidths.Proofs.Ty.LikeUnification

/-!
# Checks that mirror each other

Two states of checking mirror each other if they differ in the names of static variables, in the
type variables and in pending conditions as a `Mirror` allows.  The same source is then checked in
step in both: both checks succeed, with typed forms that are alike, or both are rejected at the same
place for reasons that are alike.
-/

namespace CircuitWidths

open CheckM Circuit TypeStore

/-- How two checks may differ: paired names and type variables stand for each other, signatures have
to agree for the known nodes only, and pending conditions are related in a way that lasts when
renamed conditions and equations are added. -/
structure Mirror where
  names : String → String → Prop
  vars : TyVar → TyVar → Prop
  known : String → Prop
  pending : Constraints → Constraints → Prop
  reported : List Diagnostic
  names_unique : Relator.BiUnique names
  vars_unique : Relator.BiUnique vars
  emit : ∀ {constraints others condition other}, pending constraints others →
    condition.Renamed names other → pending (constraints.emit condition) (others.emit other)
  equate : ∀ {constraints others left right otherLeft otherRight}, pending constraints others →
    left.Renamed names otherLeft → right.Renamed names otherRight →
      pending (constraints.emitEqual left right) (others.emitEqual otherLeft otherRight)

/-- Reasons of the same kind, with related types and conditions. -/
inductive Cause.Like (tys : Ty → Ty → Prop) (conditions : Static.Expr → Static.Expr → Prop) :
    Cause → Cause → Prop
  | argsArity (found expected : Nat) :
      Like tys conditions (.argsArity found expected) (.argsArity found expected)
  | paramsArity (found expected : Nat) :
      Like tys conditions (.paramsArity found expected) (.paramsArity found expected)
  | resultArity (found expected : Nat) :
      Like tys conditions (.resultArity found expected) (.resultArity found expected)
  | typeMismatch {found expected otherFound otherExpected : Ty} (founds : tys found otherFound)
      (expecteds : tys expected otherExpected) :
      Like tys conditions (.typeMismatch found expected) (.typeMismatch otherFound otherExpected)
  | kindMismatch (found expected : Static.Kind) :
      Like tys conditions (.kindMismatch found expected) (.kindMismatch found expected)
  | contradiction {condition other : Static.Expr} (related : conditions condition other) :
      Like tys conditions (.contradiction condition) (.contradiction other)
  | unboundNode (name : String) : Like tys conditions (.unboundNode name) (.unboundNode name)
  | unboundWire (name : String) : Like tys conditions (.unboundWire name) (.unboundWire name)

/-- Rejections at the same place for reasons that are alike. -/
structure Rejection.Like (tys : Ty → Ty → Prop) (conditions : Static.Expr → Static.Expr → Prop)
    (rejection other : Rejection) : Prop where
  span : rejection.span = other.span
  cause : rejection.cause.Like tys conditions other.cause

/-- Stops that are alike. -/
inductive Stop.Like (tys : Ty → Ty → Prop) (conditions : Static.Expr → Static.Expr → Prop) :
    Stop → Stop → Prop
  | rejected {rejection other : Rejection} (like : rejection.Like tys conditions other) :
      Like tys conditions (.rejected rejection) (.rejected other)
  | fault (fault : CheckFault) : Like tys conditions (.fault fault) (.fault fault)

namespace Mirror

variable (mirror : Mirror)

/-- Types are alike if they have renamed widths and paired variables. -/
def likeness : Likeness where
  width := Static.Expr.Renamed mirror.names
  var := mirror.vars
  unique := mirror.vars_unique

/-- Renamed conditions. -/
abbrev Conditions : Static.Expr → Static.Expr → Prop := Static.Expr.Renamed mirror.names

/-- Types that are alike. -/
abbrev Tys : Ty → Ty → Prop := Ty.Like mirror.likeness

/-- Types that are alike, the first of them over the store. -/
structure TysOver (store : TypeStore) (ty other : Ty) : Prop where
  like : mirror.Tys ty other
  owned : ty.Over store

private theorem tracks : mirror.likeness.Tracks mirror.pending where
  one := .int 1
  equate := mirror.equate

end Mirror

/-- Signatures that are alike, whose parameters keep their names. -/
structure Signature.Mirrors (mirror : Mirror) (store : TypeStore) (signature other : Signature) :
    Prop where
  like : signature.Like (mirror.TysOver store) mirror.Conditions other
  fixed : ∀ param ∈ signature.params, mirror.names param param

/-- The states differ as the mirror allows, and so will whatever they make next. -/
structure Checker.Mirrors (mirror : Mirror) (checker partner : Checker) : Prop where
  state : checker.toUnification.Like mirror.likeness mirror.pending partner.toUnification
  freshVars : ∀ count, mirror.vars ⟨checker.types.links.owner, checker.types.size + count⟩
    ⟨partner.types.links.owner, partner.types.size + count⟩
  freshNames : ∀ count, mirror.names
    (checker.settings.widthStem ++ (checker.nextWidth + count).repr)
    (partner.settings.widthStem ++ (partner.nextWidth + count).repr)
  catalog : ∀ name, mirror.known name → Option.Rel (Signature.Mirrors mirror checker.types)
    (checker.catalog.get? name) (partner.catalog.get? name)
  reported : checker.reported = mirror.reported
  otherReported : partner.reported = mirror.reported

/-- All variables of the store belong to the next one too. -/
def TypeStore.Within (store next : TypeStore) : Prop := ∀ id, store.Owns id → next.Owns id

/-- Both steps return values that `returns` relates, or both stop alike, in states that mirror each
other. -/
def Mirrored {α : Type} (mirror : Mirror) (checker : Checker)
    (returns : α → α → TypeStore → Prop) :
    EStateM.Result Stop Checker α → EStateM.Result Stop Checker α → Prop :=
  InStep
    (fun value other next last => next.Mirrors mirror last ∧ checker.types.Within next.types ∧
      returns value other next.types)
    (fun stop other next last => next.Mirrors mirror last ∧
      stop.Like mirror.Tys mirror.Conditions other)

variable {mirror : Mirror} {checker partner next last : Checker} {α β : Type}

namespace TypeStore.Within

variable {store middle final : TypeStore}

theorem refl (store : TypeStore) : store.Within store := fun _ owned => owned

theorem trans (first : store.Within middle) (second : middle.Within final) : store.Within final :=
  fun id owned => second id (first id owned)

private theorem isOver {ty : Ty} (within : store.Within final) (owned : ty.Over store) :
    ty.Over final :=
  fun id inside => within id (owned id inside)

/-- Types that mirror each other do so over every store with more variables. -/
theorem tysOver {ty other : Ty} (within : store.Within final) (types : mirror.TysOver store ty other) :
    mirror.TysOver final ty other :=
  ⟨types.like, within.isOver types.owned⟩

end TypeStore.Within

private theorem TypeStore.SameVars.within {store final : TypeStore} (same : store.SameVars final) :
    store.Within final :=
  fun _ owned => same.owns.mpr owned

/-- Types without variables are over every store, so only their likeness matters. -/
theorem Mirror.TysOver.of_closed {ty other : Ty} {store : TypeStore} (like : mirror.Tys ty other)
    (closed : ty.vars = []) : mirror.TysOver store ty other :=
  ⟨like, .of_closed closed⟩

/-- Signatures that mirror each other do so over every store with more variables. -/
theorem Signature.Mirrors.within {store final : TypeStore} {signature other : Signature}
    (within : store.Within final) (mirrors : signature.Mirrors mirror store other) :
    signature.Mirrors mirror final other where
  like :=
    { inputs := mirrors.like.inputs.imp fun _ _ types => within.tysOver types
      outputs := mirrors.like.outputs.imp fun _ _ types => within.tysOver types
      params := mirrors.like.params
      constraints := mirrors.like.constraints }
  fixed := mirrors.fixed

/-- Only the types and the pending conditions have changed. -/
theorem Checker.Mirrors.advance {state otherState : Unification}
    (mirrors : checker.Mirrors mirror partner)
    (like : state.Like mirror.likeness mirror.pending otherState)
    (within : checker.types.Within state.types)
    (freshVars : ∀ count, mirror.vars ⟨state.types.links.owner, state.types.size + count⟩
      ⟨otherState.types.links.owner, otherState.types.size + count⟩) :
    Checker.Mirrors mirror { checker with toUnification := state }
      { partner with toUnification := otherState } where
  state := like
  freshVars := freshVars
  freshNames := mirrors.freshNames
  catalog := by
    intro name known
    have related := mirrors.catalog name known
    show Option.Rel (Signature.Mirrors mirror state.types) (checker.catalog.get? name)
      (partner.catalog.get? name)
    generalize checker.catalog.get? name = found at related ⊢
    generalize partner.catalog.get? name = otherFound at related ⊢
    cases related with
    | none => exact .none
    | some signatures => exact .some (signatures.within within)
  reported := mirrors.reported
  otherReported := mirrors.otherReported

/-- No variables were made. -/
theorem Checker.Mirrors.sameVars {state otherState : Unification}
    (mirrors : checker.Mirrors mirror partner)
    (onward : Unification.Onward mirror.likeness mirror.pending checker.toUnification
      partner.toUnification state otherState) :
    Checker.Mirrors mirror { checker with toUnification := state }
      { partner with toUnification := otherState } := by
  apply mirrors.advance onward.like onward.first.within
  intro count
  rw [onward.first.owner, onward.first.size, onward.second.owner, onward.second.size]
  exact mirrors.freshVars count

namespace Mirrored

variable {step otherStep : CheckM α} {rest otherRest : α → CheckM β}
  {returns : α → α → TypeStore → Prop} {value other : α}

protected theorem pure (mirrors : checker.Mirrors mirror partner)
    (related : returns value other checker.types) :
    Mirrored mirror checker returns ((pure value : CheckM α) checker)
      ((pure other : CheckM α) partner) :=
  InStep.returned ⟨mirrors, .refl _, related⟩

/-- Both runs reject the circuit at the same place, for like reasons. -/
theorem reject {span : Source.Span} {cause otherCause : Cause}
    (mirrors : checker.Mirrors mirror partner)
    (like : cause.Like mirror.Tys mirror.Conditions otherCause) :
    Mirrored mirror checker returns (CheckM.reject span cause checker)
      (CheckM.reject span otherCause partner) :=
  InStep.failed ⟨mirrors, .rejected ⟨rfl, like⟩⟩

/-- Both runs go wrong in the same way. -/
theorem fault {fault : CheckFault} (mirrors : checker.Mirrors mirror partner) :
    Mirrored mirror checker returns ((throw (.fault fault) : CheckM α) checker)
      ((throw (.fault fault) : CheckM α) partner) :=
  InStep.failed ⟨mirrors, .fault fault⟩

/-- Runs in sequence: the second steps start from states that mirror each other. -/
theorem bind {between : α → α → TypeStore → Prop} {returns : β → β → TypeStore → Prop}
    (first : Mirrored mirror checker between (step checker) (otherStep partner))
    (continues : ∀ value other next last, Checker.Mirrors mirror next last →
      checker.types.Within next.types → between value other next.types →
      Mirrored mirror next returns (rest value next) (otherRest other last)) :
    Mirrored mirror checker returns ((step >>= rest) checker)
      ((otherStep >>= otherRest) partner) := by
  apply InStep.bind first
  rintro value other next last ⟨mirrors, within, related⟩
  apply InStep.imp (continues value other next last mirrors within related)
  · rintro result otherResult final otherFinal ⟨mirrors, further, related⟩
    exact ⟨mirrors, within.trans further, related⟩
  · exact fun _ _ _ _ stopped => stopped

/-- Both runs look at their own states, which mirror each other. -/
theorem get_bind {rest otherRest : Checker → CheckM β} {returns : β → β → TypeStore → Prop}
    (continues : Mirrored mirror checker returns (rest checker checker)
      (otherRest partner partner)) :
    Mirrored mirror checker returns ((get >>= rest) checker) ((get >>= otherRest) partner) :=
  continues

/-- A step for each of two related items in turn, whose results stay related. -/
theorem mapM {each otherEach : α → CheckM β} {items : α → α → Prop}
    {results : β → β → TypeStore → Prop}
    (lasting : ∀ {result other store later}, TypeStore.Within store later →
      results result other store → results result other later)
    {lefts rights : List α} (related : List.Forall₂ items lefts rights) :
    ∀ {checker partner : Checker}, checker.Mirrors mirror partner →
      (∀ item other, items item other → ∀ {middle otherMiddle : Checker},
        middle.Mirrors mirror otherMiddle → checker.types.Within middle.types →
          Mirrored mirror middle results (each item middle) (otherEach other otherMiddle)) →
      Mirrored mirror checker
        (fun values others store => List.Forall₂ (fun value other => results value other store)
          values others) (lefts.mapM each checker) (rights.mapM otherEach partner) := by
  induction related with
  | nil => exact fun mirrors _ => .pure mirrors .nil
  | @cons item other lefts rights head _ ih =>
      intro checker partner mirrors eachMirrored
      rw [List.mapM_cons, List.mapM_cons]
      apply bind (eachMirrored item other head mirrors (.refl _))
      intro value otherValue next last mirrors within first
      apply bind (ih mirrors fun item other related middle otherMiddle middleMirrors further =>
        eachMirrored item other related middleMirrors (within.trans further))
      intro values otherValues final otherFinal mirrors further tail
      exact .pure mirrors (.cons (lasting further first) tail)

end Mirrored

namespace CheckM

/-! ## Single steps -/

/-- Steps that only shorten links return what is related as their results are. -/
theorem onTypes_mirrored {step otherStep : StoreM α} {first second : α → Prop}
    {results : α → α → TypeStore → Prop} (mirrors : checker.Mirrors mirror partner)
    (ends : Ends step checker.types
      (fun value types => Shortened checker.types types ∧ first value) Never)
    (otherEnds : Ends otherStep partner.types
      (fun value types => Shortened partner.types types ∧ second value) Never)
    (related : ∀ value other types, checker.types.Within types → first value → second other →
      results value other types) :
    Mirrored mirror checker results (onTypes step checker) (onTypes otherStep partner) := by
  obtain ⟨value, types, run, shortened, found⟩ := onTypes_run checker ends
  obtain ⟨other, otherTypes, otherRun, otherShortened, otherFound⟩ := onTypes_run partner otherEnds
  rw [run, otherRun]
  have onward : Unification.Onward mirror.likeness mirror.pending checker.toUnification
      partner.toUnification { checker.toUnification with types := types }
      { partner.toUnification with types := otherTypes } :=
    .of_shortened mirrors.state shortened otherShortened rfl rfl
  have within : checker.types.Within types := shortened.sameVars.within
  exact .returned ⟨mirrors.sameVars onward, within,
    related value other types within found otherFound⟩

/-- Types that mirror each other do so when their links are followed. -/
theorem Mirrors.resolved {ty other resolved otherResolved : Ty}
    (mirrors : checker.Mirrors mirror partner) (types : mirror.TysOver checker.types ty other)
    (resolves : checker.types.Resolves ty resolved)
    (otherResolves : partner.types.Resolves other otherResolved) :
    mirror.TysOver checker.types resolved otherResolved :=
  ⟨mirrors.state.types.resolves resolves types.like otherResolves,
    resolves.owned mirrors.state.types.wellFormed types.owned⟩

private theorem resolve_mirrored {ty other : Ty} (mirrors : checker.Mirrors mirror partner)
    (types : mirror.TysOver checker.types ty other) :
    Mirrored mirror checker (fun resolved otherResolved store =>
        mirror.TysOver store resolved otherResolved)
      (onTypes (TypeStore.resolve ty) checker) (onTypes (TypeStore.resolve other) partner) := by
  have otherOver := mirrors.state.types.isOver types.like types.owned
  apply onTypes_mirrored mirrors
    (TypeStore.resolve_ends mirrors.state.types.wellFormed types.owned)
    (TypeStore.resolve_ends mirrors.state.types.otherWellFormed otherOver)
  intro resolved otherResolved store within resolves otherResolves
  exact within.tysOver (Mirrors.resolved mirrors types resolves otherResolves)

/-- New type variables of two states that mirror each other do so as well. -/
theorem freshTy_mirrored (mirrors : checker.Mirrors mirror partner) :
    Mirrored mirror checker (fun ty other store => mirror.TysOver store ty other)
      (freshTy checker) (freshTy partner) := by
  have paired := mirrors.freshVars 0
  have within : checker.types.Within checker.types.fresh.2 :=
    fun _ owned => checker.types.fresh_precedes.owns owned
  have freshVars : ∀ count, mirror.vars
      ⟨checker.types.fresh.2.links.owner, checker.types.fresh.2.size + count⟩
      ⟨partner.types.fresh.2.links.owner, partner.types.fresh.2.size + count⟩ := by
    intro count
    obtain ⟨_, owner, size, _⟩ := checker.types.fresh_spec
    obtain ⟨_, otherOwner, otherSize, _⟩ := partner.types.fresh_spec
    rw [owner, size, otherOwner, otherSize, Nat.add_assoc, Nat.add_assoc]
    exact mirrors.freshVars (1 + count)
  have like : Unification.Like mirror.likeness mirror.pending
      { checker.toUnification with types := checker.types.fresh.2 }
      { partner.toUnification with types := partner.types.fresh.2 } :=
    ⟨mirrors.state.types.fresh paired, mirrors.state.constraints⟩
  apply InStep.returned
  exact ⟨mirrors.advance like within freshVars, within, .var paired,
    Owns.over_var checker.types.fresh_owns⟩

/-- Widths that are generated in two states that mirror each other do so as well. -/
theorem generate_mirrored (count : Nat) (mirrors : checker.Mirrors mirror partner) :
    Mirrored mirror checker
      (fun widths others _ => ∀ index, mirror.Conditions (widths index) (others index))
      (generate count checker) (generate count partner) := by
  apply InStep.returned
  refine ⟨⟨mirrors.state, mirrors.freshVars, fun later => ?_, mirrors.catalog, mirrors.reported,
    mirrors.otherReported⟩, .refl _, fun index => .var (mirrors.freshNames index)⟩
  show mirror.names (checker.settings.widthStem ++ (checker.nextWidth + count + later).repr)
    (partner.settings.widthStem ++ (partner.nextWidth + count + later).repr)
  rw [Nat.add_assoc, Nat.add_assoc]
  exact mirrors.freshNames (count + later)

/-- Conditions that mirror each other may be added to both states. -/
theorem emit_mirrored {condition other : Static.Expr} (mirrors : checker.Mirrors mirror partner)
    (renamed : mirror.Conditions condition other) :
    Mirrored mirror checker (fun _ _ _ => True) (emit condition checker) (emit other partner) :=
  InStep.returned ⟨⟨⟨mirrors.state.types, mirror.emit mirrors.state.constraints renamed⟩,
    mirrors.freshVars, mirrors.freshNames, mirrors.catalog, mirrors.reported,
    mirrors.otherReported⟩, .refl _, trivial⟩

/-- A check of kinds does not look at the state. -/
theorem expectKind_mirrored (span : Source.Span) (expr : Static.Expr) (kind : Static.Kind)
    (mirrors : checker.Mirrors mirror partner) :
    Mirrored mirror checker (fun _ _ _ => True) (expectKind span expr kind checker)
      (expectKind span expr kind partner) := by
  unfold expectKind
  cases expr.expectKind kind with
  | ok => exact .pure mirrors trivial
  | error mismatch => exact .reject mirrors (.kindMismatch _ _)

private theorem tryUnify_mirrored {found otherFound expected otherExpected : Ty}
    (mirrors : checker.Mirrors mirror partner)
    (founds : mirror.TysOver checker.types found otherFound)
    (expecteds : mirror.TysOver checker.types expected otherExpected) :
    Mirrored mirror checker (fun outcome other _ => outcome = other)
      (tryUnify found expected checker) (tryUnify otherFound otherExpected partner) := by
  have together := Unification.unify_together mirror.tracks mirrors.state founds.like
    expecteds.like founds.owned expecteds.owned
  unfold tryUnify
  generalize Unification.unify found expected checker.toUnification = outcome at together ⊢
  generalize Unification.unify otherFound otherExpected partner.toUnification = otherOutcome
    at together ⊢
  cases together with
  | returned onward => exact .returned ⟨mirrors.sameVars onward, onward.first.within, rfl⟩
  | failed stopped =>
      obtain ⟨rfl, onward⟩ := stopped
      exact .returned ⟨mirrors.sameVars onward, onward.first.within, rfl⟩

/-- Types that are alike are made equal in both states or in neither. -/
theorem unifyAt_mirrored (span : Source.Span) {found otherFound expected otherExpected : Ty}
    (mirrors : checker.Mirrors mirror partner)
    (founds : mirror.TysOver checker.types found otherFound)
    (expecteds : mirror.TysOver checker.types expected otherExpected) :
    Mirrored mirror checker (fun _ _ _ => True) (unifyAt span found expected checker)
      (unifyAt span otherFound otherExpected partner) := by
  apply Mirrored.bind (tryUnify_mirrored mirrors founds expecteds)
  rintro outcome _ next last mirrors within rfl
  cases outcome with
  | ok => exact .pure mirrors trivial
  | error error =>
      cases error with
      | mismatch =>
          apply Mirrored.bind (resolve_mirrored mirrors (within.tysOver founds))
          intro resolvedFound otherResolvedFound middle otherMiddle mirrors further foundLike
          have expecteds := further.tysOver (within.tysOver expecteds)
          apply Mirrored.bind (resolve_mirrored mirrors expecteds)
          intro resolvedExpected otherResolvedExpected final otherFinal mirrors _ expectedLike
          exact .reject mirrors (.typeMismatch foundLike.like expectedLike.like)
      | resultArity foundCount expectedCount => exact .reject mirrors (.resultArity _ _)
      | fault fault => exact .failed ⟨mirrors, .fault fault⟩

end CheckM

end CircuitWidths
