import CircuitWidths.Proofs.Ty.Later
import CircuitWidths.Proofs.Ty.Unifying

/-!
# Unification is principal

A step of unification imposes a condition on models: the models of the state after it are exactly
the models of the state before it that meet the condition (`Imposes`).  If it fails, no model of
the state before it meets the condition (`Excludes`).  For unification of two types the condition
is that they denote the same ground type, and the step never stops for any other reason
(`unify_ends`).
-/

namespace CircuitWidths

namespace Unification

open TypeStore

/-- The store stays well formed, nothing that it said is lost, and no variable is added. -/
structure Advances (bound : Nat) (state next : Unification) : Prop where
  wellFormed : next.types.WellFormed
  shallow : next.types.Shallow bound
  precedes : state.types.Precedes next.types
  size : next.types.size = state.types.size

/-- Exactly the models that meet the goal remain models. -/
structure Imposes (bound : Nat) (goal : Model → Prop) (state next : Unification) : Prop where
  advances : Advances bound state next
  exactly : ∃ conditions,
    next.constraints.pending = state.constraints.pending ++ conditions ∧
      ∀ model : Model, (model.Respects next.types ∧ model.Meets conditions) ↔
        (model.Respects state.types ∧ goal model)

/-- The step was refused because no model meets the goal. -/
structure Excludes (bound : Nat) (goal : Model → Prop) (error : UnifyError)
    (state next : Unification) : Prop where
  advances : Advances bound state next
  refused : error = .mismatch ∨ ∃ found expected, error = .resultArity found expected
  never : ∀ model : Model, model.Respects state.types → ¬ goal model

variable {state middle next : Unification} {bound : Nat} {goal other : Model → Prop}
  {error : UnifyError} {id : TyVar} {ty found expected : Ty}

private theorem Advances.trans (first : Advances bound state middle)
    (second : Advances bound middle next) : Advances bound state next where
  wellFormed := second.wellFormed
  shallow := second.shallow
  precedes := first.precedes.trans second.precedes
  size := second.size.trans first.size

private theorem Advances.of_shortened (wellFormed : state.types.WellFormed)
    (shallow : state.types.Shallow bound) (shortened : Shortened state.types next.types) :
    Advances bound state next where
  wellFormed := shortened.wellFormed wellFormed
  shallow := shortened.shallow shallow
  precedes := shortened.precedes
  size := shortened.size

private theorem Imposes.and (first : Imposes bound goal state middle)
    (second : Imposes bound other middle next) :
    Imposes bound (fun model => goal model ∧ other model) state next := by
  obtain ⟨earlier, earlierPending, earlierModels⟩ := first.exactly
  obtain ⟨later, laterPending, laterModels⟩ := second.exactly
  refine ⟨first.advances.trans second.advances, earlier ++ later, ?_, fun model => ?_⟩
  · rw [laterPending, earlierPending, List.append_assoc]
  · constructor
    · rintro ⟨respects, met⟩
      obtain ⟨metEarlier, metLater⟩ := Static.allHold_append.mp met
      obtain ⟨respectsMiddle, meetsOther⟩ := (laterModels model).mp ⟨respects, metLater⟩
      obtain ⟨respectsState, meetsGoal⟩ := (earlierModels model).mp ⟨respectsMiddle, metEarlier⟩
      exact ⟨respectsState, meetsGoal, meetsOther⟩
    · rintro ⟨respects, meetsGoal, meetsOther⟩
      obtain ⟨respectsMiddle, metEarlier⟩ := (earlierModels model).mpr ⟨respects, meetsGoal⟩
      obtain ⟨respectsNext, metLater⟩ := (laterModels model).mpr ⟨respectsMiddle, meetsOther⟩
      exact ⟨respectsNext, Static.allHold_append.mpr ⟨metEarlier, metLater⟩⟩

private theorem Imposes.excludes (first : Imposes bound goal state middle)
    (second : Excludes bound other error middle next) :
    Excludes bound (fun model => goal model ∧ other model) error state next := by
  refine ⟨first.advances.trans second.advances, second.refused, fun model respects both => ?_⟩
  obtain ⟨_, _, models⟩ := first.exactly
  exact second.never model ((models model).mpr ⟨respects, both.1⟩).1 both.2

/-- Before a step, links may be shortened and the goal restated. -/
theorem Imposes.of_shortened (shortened : Shortened state.types middle.types)
    (kept : middle.constraints = state.constraints) (imposes : Imposes bound goal middle next)
    (same : ∀ model : Model, model.Respects state.types → (goal model ↔ other model)) :
    Imposes bound other state next := by
  obtain ⟨⟨wellFormed, shallow, precedes, size⟩, conditions, pending, models⟩ := imposes
  refine ⟨⟨wellFormed, shallow, shortened.precedes.trans precedes, size.trans shortened.size⟩,
    conditions, by rw [pending, kept], fun model => ?_⟩
  rw [models, shortened.respects_iff]
  exact and_congr_right (same model)

private theorem Excludes.of_shortened (shortened : Shortened state.types middle.types)
    (excludes : Excludes bound goal error middle next)
    (same : ∀ model : Model, model.Respects state.types → (goal model ↔ other model)) :
    Excludes bound other error state next := by
  obtain ⟨⟨wellFormed, shallow, precedes, size⟩, refused, never⟩ := excludes
  refine ⟨⟨wellFormed, shallow, shortened.precedes.trans precedes, size.trans shortened.size⟩,
    refused, fun model respects meets => ?_⟩
  exact never model (shortened.respects_iff.mpr respects) ((same model respects).mpr meets)

/-- The outcomes of a step that makes the goal true. -/
abbrev Achieves (bound : Nat) (goal : Model → Prop) (state : Unification) (step : UnifyM Unit) :
    Prop :=
  Ends step state (fun _ next => Imposes bound goal state next)
    (fun error next => Excludes bound goal error state next)

private theorem Achieves.congr {step : UnifyM Unit} (achieves : Achieves bound goal state step)
    (same : ∀ model : Model, goal model ↔ other model) : Achieves bound other state step :=
  achieves.imp (fun _ _ imposes => imposes.of_shortened (.refl _) rfl fun model _ => same model)
    fun _ _ excludes => excludes.of_shortened (.refl _) fun model _ => same model

/-! ## Single steps -/

/-- A step on the type store that always returns, with the pending conditions left as they are. -/
theorem onTypes_ends {α : Type} {step : StoreM α} {returns : α → TypeStore → Prop}
    {fails : UnifyError → Unification → Prop} (ends : Ends step state.types returns Never) :
    Ends (onTypes step) state
      (fun value next => returns value next.types ∧ next.constraints = state.constraints)
      fails := by
  obtain ⟨value, types, run, returned⟩ := ends.exists_ok
  have lifted : onTypes step state = .ok value { state with types := types } := by
    rw [onTypes, run]
  exact .of_ok lifted ⟨returned, rfl⟩

private theorem pure_achieves (wellFormed : state.types.WellFormed)
    (shallow : state.types.Shallow bound) (always : ∀ model : Model, goal model) :
    Achieves bound goal state (pure ()) := by
  refine .pure ⟨⟨wellFormed, shallow, .refl _, rfl⟩, [], (List.append_nil _).symm, fun model => ?_⟩
  simp [Model.Meets, always model]

private theorem throw_achieves (wellFormed : state.types.WellFormed)
    (shallow : state.types.Shallow bound)
    (refused : error = .mismatch ∨ ∃ found expected, error = .resultArity found expected)
    (never : ∀ model : Model, ¬ goal model) : Achieves bound goal state (throw error) :=
  .throw ⟨⟨wellFormed, shallow, .refl _, rfl⟩, refused, fun model _ => never model⟩

private theorem equate_achieves (wellFormed : state.types.WellFormed)
    (shallow : state.types.Shallow bound) (left right : Static.Expr) :
    Achieves bound (fun model => left.value model.reading model.values =
      right.value model.reading model.values) state (equate left right) := by
  apply Ends.modify
  have advances : Advances bound state
      { state with constraints := state.constraints.emitEqual left right } :=
    ⟨wellFormed, shallow, .refl _, rfl⟩
  by_cases skipped : left = right ∧ state.constraints.keepTrivial = false
  · refine ⟨advances, [], ?_, fun model => ?_⟩
    · simp [Constraints.emitEqual, skipped]
    · simp [Model.Meets, skipped.1]
  · refine ⟨advances, [.binary .eq left right], ?_, fun model => ?_⟩
    · simp only [Constraints.emitEqual, if_neg skipped, Constraints.emit]
    · simp [Model.Meets]

/-- Linking a variable to another head imposes that they denote the same, which is refused if the
variable occurs in the head. -/
theorem bindVar_achieves (wellFormed : state.types.WellFormed)
    (shallow : state.types.Shallow bound) (unlinked : state.types.Unlinked id)
    (owned : ty.Over state.types) (head : state.types.Leads ty ty) (differs : ty ≠ .var id)
    (depth : ty.depth ≤ bound) :
    Achieves bound (fun model => model.grounds id = ty.denote model) state (bindVar id ty) := by
  refine .bind (onTypes_ends (occurs_ends wellFormed owned))
    fun occurs middle ⟨⟨shortened, correct⟩, kept⟩ => ?_
  cases occurs with
  | true =>
      refine .throw ⟨.of_shortened wellFormed shallow shortened, .inl rfl, fun model respects => ?_⟩
      have occurs := correct.mp rfl
      cases occurs with
      | here leads => exact (differs (head.unique leads)).elim
      | inside leads mem occursInside =>
          obtain rfl := head.unique leads
          exact TypeStore.Occurs.denote_ne (.inside leads mem occursInside) respects
  | false =>
      have absent : ¬ middle.types.Occurs id ty := by
        rw [shortened.occurs_iff]
        simpa using correct
      refine (onTypes_ends (assign_ends (shortened.unlinked.mpr unlinked))).imp ?_
        fun _ _ impossible => impossible
      intro _ next linked
      obtain ⟨assigned, keptAgain⟩ := linked
      have imposes : Imposes bound (fun model => model.grounds id = ty.denote model) middle next :=
        ⟨⟨assigned.wellFormed (shortened.wellFormed wellFormed) (shortened.over_iff.mpr owned) absent,
          assigned.shallow (shortened.shallow shallow) depth, assigned.precedes, assigned.size⟩,
          [], by simp [keptAgain], fun model => by simp [Model.Meets, assigned.respects_iff]⟩
      exact imposes.of_shortened shortened kept fun _ _ => Iff.rfl

/-! ## Unifying -/

/-- The levels suffice for the type in this store and in all that unification can make of it. -/
def Lasting (bound : Nat) (store : TypeStore) (levels : Nat) (ty : Ty) : Prop :=
  ∀ later, store.Precedes later → later.WellFormed → later.Shallow bound →
    later.size = store.size → later.Fits levels ty

private theorem Lasting.later {levels : Nat} (lasting : Lasting bound state.types levels ty)
    (advances : Advances bound state next) : Lasting bound next.types levels ty :=
  fun later precedes wellFormed shallow size => lasting later (advances.precedes.trans precedes)
    wellFormed shallow (size.trans advances.size)

private theorem Lasting.of_mem {levels : Nat} {members : List Ty}
    (lasting : Lasting bound state.types (levels + 1) found)
    (leads : state.types.Leads found (.product members)) (member : ty ∈ members) :
    Lasting bound state.types levels ty :=
  fun later precedes wellFormed shallow size =>
    lasting later precedes wellFormed shallow size members
      (precedes.leads (by simp) leads) ty member

private theorem lasting_unfoldLimit (owned : found.Over state.types) :
    Lasting (max state.types.linkDepth (Ty.depthAll [found, expected])) state.types
      (state.types.unfoldLimit [found, expected]) found := by
  intro later precedes laterWellFormed shallow size
  rw [unfoldLimit, ← size]
  exact laterWellFormed.fits shallow (precedes.owned owned)
    ((Ty.depth_le_depthAll List.mem_cons_self).trans (Nat.le_max_right _ _))

/-- What unification of two types needs to know about them. -/
structure Unifiable (bound : Nat) (state : Unification) (levels : Nat) (found expected : Ty) :
    Prop where
  foundOver : found.Over state.types
  expectedOver : expected.Over state.types
  foundDepth : found.depth ≤ bound
  expectedDepth : expected.depth ≤ bound
  lasting : Lasting bound state.types levels found

private theorem Unifiable.later {levels : Nat}
    (unifiable : Unifiable bound state levels found expected)
    (advances : Advances bound state next) : Unifiable bound next levels found expected where
  foundOver := advances.precedes.owned unifiable.foundOver
  expectedOver := advances.precedes.owned unifiable.expectedOver
  foundDepth := unifiable.foundDepth
  expectedDepth := unifiable.expectedDepth
  lasting := unifiable.lasting.later advances

/-- Unifying pairs one after another makes all of them equal. -/
theorem forM_achieves {unifyPair : Ty → Ty → UnifyM Unit} {levels : Nat}
    (pairs : List (Ty × Ty))
    (each : ∀ pair ∈ pairs, ∀ state : Unification, state.types.WellFormed →
      state.types.Shallow bound → Unifiable bound state levels pair.1 pair.2 →
      Achieves bound (fun model => pair.1.denote model = pair.2.denote model) state
        (unifyPair pair.1 pair.2)) :
    ∀ state : Unification, state.types.WellFormed → state.types.Shallow bound →
      (∀ pair ∈ pairs, Unifiable bound state levels pair.1 pair.2) →
      Achieves bound (fun model => ∀ pair ∈ pairs, pair.1.denote model = pair.2.denote model) state
        (pairs.forM fun pair => unifyPair pair.1 pair.2) := by
  induction pairs with
  | nil =>
      intro state wellFormed shallow _
      exact pure_achieves wellFormed shallow (by simp)
  | cons pair pairs ih =>
      intro state wellFormed shallow unifiable
      simp only [List.forall_mem_cons]
      have headEnds := each pair List.mem_cons_self state wellFormed shallow
        (unifiable pair List.mem_cons_self)
      refine .bind (headEnds.imp (fun _ _ imposes => imposes) fun _ _ excludes =>
        ⟨excludes.advances, excludes.refused, fun model respects all =>
          excludes.never model respects all.1⟩) fun _ middle imposes => ?_
      have tailEnds := ih (fun other later => each other (List.mem_cons_of_mem _ later)) middle
        imposes.advances.wellFormed imposes.advances.shallow fun other later =>
          (unifiable other (List.mem_cons_of_mem _ later)).later imposes.advances
      exact tailEnds.imp (fun _ _ tailImposes => imposes.and tailImposes)
        fun _ _ tailExcludes => imposes.excludes tailExcludes

/-- Lists of the same length denote the same product if they agree pair by pair. -/
theorem denote_product_eq_iff {lefts rights : List Ty} (length : lefts.length = rights.length)
    (model : Model) :
    (∀ pair ∈ lefts.zip rights, pair.1.denote model = pair.2.denote model) ↔
      (Ty.product lefts).denote model = (Ty.product rights).denote model := by
  rw [Ty.denote_product, Ty.denote_product, GroundTy.product.injEq]
  constructor
  · intro each
    exact map_eq_map_of_forall₂ (List.forall₂_iff_zip.mpr ⟨length, fun inside => each _ inside⟩)
      fun _ _ agree => agree
  · intro same pair inside
    rw [← List.forall₂_eq_eq_eq, List.forall₂_map_left_iff, List.forall₂_map_right_iff] at same
    exact List.forall₂_zip same inside

/-- The two types are heads, about which unification knows what it needs. -/
structure Heads (bound : Nat) (state : Unification) (found expected : Ty) : Prop where
  wellFormed : state.types.WellFormed
  shallow : state.types.Shallow bound
  foundOver : found.Over state.types
  expectedOver : expected.Over state.types
  foundDepth : found.depth ≤ bound
  expectedDepth : expected.depth ≤ bound
  foundSelf : state.types.Leads found found
  expectedSelf : state.types.Leads expected expected

private theorem Heads.bind_found (heads : Heads bound state (.var id) expected)
    (differs : expected ≠ .var id) :
    Achieves bound (fun model => (Ty.var id).denote model = expected.denote model) state
      (bindVar id expected) :=
  bindVar_achieves heads.wellFormed heads.shallow heads.foundSelf.unlinked heads.expectedOver
    heads.expectedSelf differs heads.expectedDepth

private theorem Heads.bind_expected (heads : Heads bound state found (.var id))
    (differs : found ≠ .var id) :
    Achieves bound (fun model => found.denote model = (Ty.var id).denote model) state
      (bindVar id found) :=
  (bindVar_achieves heads.wellFormed heads.shallow heads.expectedSelf.unlinked heads.foundOver
    heads.foundSelf differs heads.foundDepth).congr fun _ => eq_comm

private theorem unifyHeads_achieves {unifyPair : Ty → Ty → UnifyM Unit}
    (heads : Heads bound state found expected)
    (members : ∀ lefts rights, found = .product lefts → expected = .product rights →
      Achieves bound
        (fun model => ∀ pair ∈ lefts.zip rights, pair.1.denote model = pair.2.denote model) state
        ((lefts.zip rights).forM fun pair => unifyPair pair.1 pair.2)) :
    Achieves bound (fun model => found.denote model = expected.denote model) state
      (unifyHeads unifyPair found expected) := by
  have agree : (∀ model : Model, found.denote model = expected.denote model) →
      Achieves bound (fun model => found.denote model = expected.denote model) state (pure ()) :=
    pure_achieves heads.wellFormed heads.shallow
  have refuse : (∀ model : Model, found.denote model ≠ expected.denote model) →
      Achieves bound (fun model => found.denote model = expected.denote model) state
        (throw .mismatch) := throw_achieves heads.wellFormed heads.shallow (.inl rfl)
  have equate := equate_achieves heads.wellFormed heads.shallow
  cases expected with
  | var right =>
      cases found with
      | var left =>
          rw [unifyHeads]
          by_cases same : left = right
          · rw [if_pos same]
            exact agree fun model => by rw [same]
          · rw [if_neg same]
            exact heads.bind_expected fun equal => same (Ty.var.inj equal)
      | unit | bit | bits _ | product _ => exact heads.bind_expected (by simp)
  | unit =>
      cases found with
      | var left => exact heads.bind_found (by simp)
      | unit => exact agree fun _ => rfl
      | bit | bits _ | product _ => exact refuse (by simp)
  | bit =>
      cases found with
      | var left => exact heads.bind_found (by simp)
      | bit => exact agree fun _ => rfl
      | bits width => exact (equate width (.int 1)).congr fun model => by simp [Static.Expr.value]
      | unit | product _ => exact refuse (by simp)
  | bits expectedWidth =>
      cases found with
      | var left => exact heads.bind_found (by simp)
      | bit =>
          exact (equate expectedWidth (.int 1)).congr fun model => by
            simp [Static.Expr.value, eq_comm]
      | bits foundWidth => exact (equate foundWidth expectedWidth).congr fun model => by simp
      | unit | product _ => exact refuse (by simp)
  | product rights =>
      cases found with
      | var left => exact heads.bind_found (by simp)
      | unit | bit | bits _ => exact refuse (by simp)
      | product lefts =>
          rw [unifyHeads]
          by_cases length : lefts.length = rights.length
          · rw [if_pos length]
            exact (members lefts rights rfl rfl).congr (denote_product_eq_iff length)
          · rw [if_neg length]
            refine throw_achieves heads.wellFormed heads.shallow (.inr ⟨_, _, rfl⟩) fun model => ?_
            simp only [Ty.denote_product, GroundTy.product.injEq]
            intro same
            exact length (by simpa using congrArg List.length same)

private theorem unifyWithin_achieves : ∀ (levels : Nat) (found expected : Ty) (state : Unification),
    state.types.WellFormed → state.types.Shallow bound →
      Unifiable bound state levels found expected →
      Achieves bound (fun model => found.denote model = expected.denote model) state
        (unifyWithin levels found expected) := by
  intro levels
  induction levels with
  | zero =>
      intro found expected state wellFormed shallow unifiable
      exact (unifiable.lasting state.types (.refl _) wellFormed shallow rfl).elim
  | succ levels ih =>
      intro found expected state wellFormed shallow unifiable
      rw [unifyWithin_succ]
      refine .bind (onTypes_ends (representative_ends wellFormed unifiable.foundOver))
        fun foundHead first ⟨⟨foundLeads, foundWalk⟩, firstKept⟩ => ?_
      refine .bind (onTypes_ends (representative_ends (foundWalk.wellFormed wellFormed)
        (foundWalk.over_iff.mpr unifiable.expectedOver)))
        fun expectedHead middle ⟨⟨expectedLeadsLater, expectedWalk⟩, middleKept⟩ => ?_
      have expectedLeads := foundWalk.leads_iff.mp expectedLeadsLater
      have shortened := foundWalk.trans expectedWalk
      have advances : Advances bound state middle := .of_shortened wellFormed shallow shortened
      have heads : Heads bound middle foundHead expectedHead := {
        wellFormed := advances.wellFormed
        shallow := advances.shallow
        foundOver := advances.precedes.owned (foundLeads.owned wellFormed unifiable.foundOver)
        expectedOver :=
          advances.precedes.owned (expectedLeads.owned wellFormed unifiable.expectedOver)
        foundDepth := foundLeads.depth_le shallow unifiable.foundDepth
        expectedDepth := expectedLeads.depth_le shallow unifiable.expectedDepth
        foundSelf := shortened.leads_iff.mpr foundLeads.head_self
        expectedSelf := shortened.leads_iff.mpr expectedLeads.head_self }
      have same : ∀ model : Model, model.Respects state.types →
          (foundHead.denote model = expectedHead.denote model ↔
            found.denote model = expected.denote model) := by
        intro model respects
        rw [foundLeads.denote_eq respects, expectedLeads.denote_eq respects]
      refine (unifyHeads_achieves heads ?_).imp
        (fun _ _ imposes => imposes.of_shortened shortened (middleKept.trans firstKept) same)
        fun _ _ excludes => excludes.of_shortened shortened same
      -- Members of a product are one level below it, in the store that the walks have made.
      rintro lefts rights rfl rfl
      refine forM_achieves _ (fun pair _ => ih pair.1 pair.2) middle heads.wellFormed heads.shallow
        fun pair inside => ?_
      obtain ⟨inLefts, inRights⟩ := List.of_mem_zip inside
      exact {
        foundOver := heads.foundOver.of_mem inLefts
        expectedOver := heads.expectedOver.of_mem inRights
        foundDepth := (Ty.depth_lt_of_mem inLefts).le.trans heads.foundDepth
        expectedDepth := (Ty.depth_lt_of_mem inRights).le.trans heads.expectedDepth
        lasting := (unifiable.lasting.later advances).of_mem
          (shortened.leads_iff.mpr foundLeads) inLefts }

/-- Unification imposes that the two types denote the same ground type, or is refused because they
never do. -/
theorem unify_ends (state : Unification) (wellFormed : state.types.WellFormed)
    (foundOver : found.Over state.types) (expectedOver : expected.Over state.types) :
    ∃ bound, Achieves bound (fun model => found.denote model = expected.denote model) state
      (unify found expected) := by
  refine ⟨max state.types.linkDepth (Ty.depthAll [found, expected]), .after rfl ?_⟩
  apply unifyWithin_achieves _ _ _ _ wellFormed
    ((shallow_linkDepth _).mono (Nat.le_max_left _ _))
  exact {
    foundOver := foundOver
    expectedOver := expectedOver
    foundDepth := (Ty.depth_le_depthAll (by simp)).trans (Nat.le_max_right _ _)
    expectedDepth := (Ty.depth_le_depthAll (by simp)).trans (Nat.le_max_right _ _)
    lasting := lasting_unfoldLimit foundOver }

end Unification

namespace TypeStore

/-- The stores that operations on types over their own variables make from an empty one. -/
inductive Reachable : TypeStore → Prop
  | empty (owner : Nat) : Reachable (.empty owner)
  | fresh {store : TypeStore} (reachable : Reachable store) : Reachable store.fresh.2
  | representative {store : TypeStore} {ty : Ty} (reachable : Reachable store)
      (owned : ty.Over store) : Reachable (finalState (representative ty store))
  | resolve {store : TypeStore} {ty : Ty} (reachable : Reachable store)
      (owned : ty.Over store) : Reachable (finalState (resolve ty store))
  | substitute {store : TypeStore} {ty : Ty} (bindings : Bindings Static.Expr)
      (reachable : Reachable store) (owned : ty.Over store) :
      Reachable (finalState (substitute bindings ty store))
  | unify {store : TypeStore} {found expected : Ty} (constraints : Constraints)
      (reachable : Reachable store) (foundOver : found.Over store)
      (expectedOver : expected.Over store) :
      Reachable (finalState (Unification.unify found expected ⟨store, constraints⟩)).types

/-- Every store that can be reached is well formed. -/
theorem Reachable.wellFormed {store : TypeStore} (reachable : store.Reachable) :
    store.WellFormed := by
  induction reachable with
  | empty owner => exact empty_wellFormed owner
  | fresh _ ih => exact fresh_wellFormed ih
  | representative _ owned ih =>
      exact (representative_ends ih owned).final WellFormed (fun _ _ ⟨_, walk⟩ => walk.wellFormed ih)
        fun _ _ impossible => impossible.elim
  | resolve _ owned ih =>
      exact (resolve_ends ih owned).final WellFormed (fun _ _ ⟨walk, _⟩ => walk.wellFormed ih)
        fun _ _ impossible => impossible.elim
  | substitute bindings _ owned ih =>
      exact (substitute_ends bindings ih owned).final WellFormed
        (fun _ _ ⟨walk, _⟩ => walk.wellFormed ih) fun _ _ impossible => impossible.elim
  | unify constraints _ foundOver expectedOver ih =>
      obtain ⟨bound, ends⟩ := Unification.unify_ends ⟨_, constraints⟩ ih foundOver expectedOver
      exact ends.final (fun state => state.types.WellFormed)
        (fun _ _ imposes => imposes.advances.wellFormed)
        fun _ _ excludes => excludes.advances.wellFormed

end TypeStore

namespace Unification

/-- **Unification is principal.**  It succeeds or is refused.  If it succeeds, the models of the
links that make the two types equal are those that are also models of the new links and meet the
appended conditions; if it is refused, no model of the links makes the types equal. -/
theorem unify_principal {store : TypeStore} (reachable : store.Reachable)
    (constraints : Constraints) {found expected : Ty} (foundOver : found.Over store)
    (expectedOver : expected.Over store) :
    match unify found expected ⟨store, constraints⟩ with
    | .ok _ next => ∃ appended,
        next.constraints.pending = constraints.pending ++ appended ∧
          ∀ model : Model, model.Respects store →
            (found.denote model = expected.denote model ↔
              model.Respects next.types ∧ model.Meets appended)
    | .error .mismatch _ | .error (.resultArity _ _) _ =>
        ∀ model : Model, model.Respects store → found.denote model ≠ expected.denote model
    | .error (.fault _) _ => False := by
  obtain ⟨bound, ends⟩ := unify_ends ⟨store, constraints⟩ reachable.wellFormed foundOver
    expectedOver
  cases run : unify found expected ⟨store, constraints⟩ with
  | ok value next =>
      obtain ⟨appended, pending, models⟩ := (ends.returned run).exactly
      refine ⟨appended, pending, fun model respects => ?_⟩
      rw [models]
      exact ⟨fun same => ⟨respects, same⟩, fun both => both.2⟩
  | error error next =>
      have excludes := ends.failed run
      rcases excludes.refused with rfl | ⟨_, _, rfl⟩
      · exact excludes.never
      · exact excludes.never

/-- A variable that stands in two places of a pair, one of them a bit and the other a bus. -/
theorem unify_principal_shared :
    let store := (TypeStore.empty 0).fresh.2
    let shared : Ty := .var ⟨0, 0⟩
    store.Reachable ∧ (Ty.product [shared, shared]).Over store ∧
      ∃ next, unify (.product [shared, shared]) (.product [.bit, .bits (.var "n")])
          ⟨store, .empty false⟩ = .ok () next ∧
        ∃ appended, next.constraints.pending = appended ∧
          ∀ model : Model, model.Respects store →
            ((Ty.product [shared, shared]).denote model =
                (Ty.product [.bit, .bits (.var "n")]).denote model ↔
              model.Respects next.types ∧ model.Meets appended) := by
  intro store shared
  have reachable : store.Reachable := .fresh (.empty 0)
  have owned : (Ty.product [shared, shared]).Over store := by
    intro id inside
    obtain rfl : id = ⟨0, 0⟩ := by simpa [Ty.vars, Ty.varsAll, shared] using inside
    exact TypeStore.fresh_owns _
  have closed : (Ty.product [.bit, .bits (.var "n")]).Over store := by
    intro id inside
    cases inside
  exact ⟨reachable, owned, _, rfl, unify_principal reachable (.empty false) owned closed⟩

end Unification

end CircuitWidths
