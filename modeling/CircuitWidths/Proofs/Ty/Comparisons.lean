import CircuitWidths.Proofs.Ty.Principal

/-!
# Widths that unification compares

What unification does with two heads that are not variables depends on the heads alone (`meet`): it
agrees, compares two widths, goes on to the members or refuses.  The equations of the widths that a
run compares (`comparisons`) are all that it adds to the pending constraints, also if it is refused
later (`constraints_unify`).
-/

namespace CircuitWidths

/-- Two widths that have to be equal: that of a bus which meets a single bit and one, or those of
two buses. -/
inductive Comparison
  | bit (width : Static.Expr)
  | buses (found expected : Static.Expr)
  deriving DecidableEq, Repr

namespace Comparison

def left : Comparison → Static.Expr
  | .bit width => width
  | .buses found _ => found

def right : Comparison → Static.Expr
  | .bit _ => .int 1
  | .buses _ expected => expected

/-- The equation that the comparison becomes. -/
def equation (comparison : Comparison) : Static.Expr :=
  .binary .eq comparison.left comparison.right

/-- Trivial equations are collected only if they are asked for. -/
def isKept (keepTrivial : Bool) (comparison : Comparison) : Bool :=
  keepTrivial || comparison.left != comparison.right

/-- The comparison when the types are given the other way round. -/
def flip : Comparison → Comparison
  | .bit width => .bit width
  | .buses found expected => .buses expected found

/-- Whether a comparison is kept does not depend on its sides. -/
theorem isKept_flip (keepTrivial : Bool) (comparison : Comparison) :
    comparison.flip.isKept keepTrivial = comparison.isKept keepTrivial := by
  cases comparison with
  | bit width => rfl
  | buses found expected => exact congrArg (keepTrivial || ·) bne_comm

end Comparison

namespace Constraints

/-- The constraints after the widths have been compared. -/
def after (constraints : Constraints) (comparisons : List Comparison) : Constraints :=
  { constraints with
    pending := constraints.pending ++
      (comparisons.filter (·.isKept constraints.keepTrivial)).map (·.equation) }

variable (constraints : Constraints)

@[simp] theorem after_nil : constraints.after [] = constraints := by simp [after]

@[simp] theorem after_append (first second : List Comparison) :
    constraints.after (first ++ second) = (constraints.after first).after second := by
  simp [after]

/-- Equating two widths adds one comparison. -/
theorem emitEqual_eq_after (comparison : Comparison) :
    constraints.emitEqual comparison.left comparison.right = constraints.after [comparison] := by
  obtain ⟨pending, keepTrivial⟩ := constraints
  by_cases same : comparison.left = comparison.right
  · cases keepTrivial <;>
      simp [emitEqual, emit, after, Comparison.isKept, Comparison.equation, same]
  · simp [emitEqual, emit, after, Comparison.isKept, Comparison.equation, same]

end Constraints

namespace Unification

open TypeStore

variable {found expected : Ty} {state : Unification}

/-- What two heads have to do with each other. -/
inductive Meeting
  | agree
  | compare (comparison : Comparison)
  | members (pairs : List (Ty × Ty))
  | refuse (error : UnifyError)

/-- How two heads that are not variables meet. -/
def meet : Ty → Ty → Meeting
  | .unit, .unit => .agree
  | .bit, .bit => .agree
  | .bit, .bits width => .compare (.bit width)
  | .bits width, .bit => .compare (.bit width)
  | .bits left, .bits right => .compare (.buses left right)
  | .product lefts, .product rights =>
    if lefts.length = rights.length then
      .members (lefts.zip rights)
    else
      .refuse (.resultArity lefts.length rights.length)
  | _, _ => .refuse .mismatch

namespace Meeting

def carryOut (unifyPair : Ty → Ty → UnifyM Unit) : Meeting → UnifyM Unit
  | .agree => pure ()
  | .compare comparison => equate comparison.left comparison.right
  | .members pairs => pairs.forM fun pair => unifyPair pair.1 pair.2
  | .refuse error => throw error

/-- The widths that are compared, given those that are compared for members. -/
def comparisons (along : List (Ty × Ty) → List Comparison) : Meeting → List Comparison
  | .compare comparison => [comparison]
  | .members pairs => along pairs
  | .agree | .refuse _ => []

end Meeting

/-- Heads that are variables do not meet, they are linked. -/
theorem meet_var_left (id : TyVar) (ty : Ty) : meet (.var id) ty = .refuse .mismatch := by
  cases ty <;> rfl

/-- Heads that are variables do not meet, they are linked. -/
theorem meet_var_right (id : TyVar) (ty : Ty) : meet ty (.var id) = .refuse .mismatch := by
  cases ty <;> rfl

variable {unifyPair : Ty → Ty → UnifyM Unit} {id : TyVar}

/-- A found variable is linked to an expected type that is none. -/
theorem unifyHeads_var_left (concrete : ∀ id, expected ≠ .var id) :
    unifyHeads unifyPair (.var id) expected = bindVar id expected := by
  cases expected with
  | var other => exact (concrete other rfl).elim
  | unit | bit | bits _ | product _ => rfl

/-- An expected variable is linked to a found type that is none. -/
theorem unifyHeads_var_right (concrete : ∀ id, found ≠ .var id) :
    unifyHeads unifyPair found (.var id) = bindVar id found := by
  cases found with
  | var other => exact (concrete other rfl).elim
  | unit | bit | bits _ | product _ => rfl

/-- Heads that are no variables meet, and what comes of it is carried out. -/
theorem unifyHeads_eq_carryOut
    (foundConcrete : ∀ id, found ≠ .var id) (expectedConcrete : ∀ id, expected ≠ .var id) :
    unifyHeads unifyPair found expected = (meet found expected).carryOut unifyPair := by
  cases found with
  | var id => exact (foundConcrete id rfl).elim
  | unit | bit | bits _ =>
      cases expected with
      | var id => exact (expectedConcrete id rfl).elim
      | unit | bit | bits _ | product _ => rfl
  | product lefts =>
      cases expected with
      | var id => exact (expectedConcrete id rfl).elim
      | unit | bit | bits _ => rfl
      | product rights =>
          rw [unifyHeads, meet]
          split
          · rfl
          · rfl

/-- What unification does with two heads: they are one variable, or a variable is linked to the other
head, or two heads that are not variables meet. -/
inductive Encounter (unifyPair : Ty → Ty → UnifyM Unit) : Ty → Ty → UnifyM Unit → Prop
  | same (id : TyVar) : Encounter unifyPair (.var id) (.var id) (pure ())
  | linkFound {id : TyVar} {ty : Ty} (differs : ty ≠ .var id) :
      Encounter unifyPair (.var id) ty (bindVar id ty)
  | linkExpected {id : TyVar} {ty : Ty} (differs : ty ≠ .var id) :
      Encounter unifyPair ty (.var id) (bindVar id ty)
  | meeting {found expected : Ty} (foundConcrete : ∀ id, found ≠ .var id)
      (expectedConcrete : ∀ id, expected ≠ .var id) :
      Encounter unifyPair found expected ((meet found expected).carryOut unifyPair)

/-- What unification does with two heads, case by case. -/
theorem unifyHeads_encounter (found expected : Ty) :
    Encounter unifyPair found expected (unifyHeads unifyPair found expected) := by
  by_cases foundVar : ∃ id, found = .var id
  · obtain ⟨left, rfl⟩ := foundVar
    by_cases expectedVar : ∃ id, expected = .var id
    · obtain ⟨right, rfl⟩ := expectedVar
      rw [unifyHeads]
      by_cases same : left = right
      · rw [if_pos same, same]
        exact .same right
      · rw [if_neg same]
        exact .linkExpected fun equal => same (Ty.var.inj equal)
    · rw [unifyHeads_var_left (not_exists.mp expectedVar)]
      exact .linkFound (not_exists.mp expectedVar left)
  · have foundConcrete := not_exists.mp foundVar
    by_cases expectedVar : ∃ id, expected = .var id
    · obtain ⟨right, rfl⟩ := expectedVar
      rw [unifyHeads_var_right foundConcrete]
      exact .linkExpected (foundConcrete right)
    · rw [unifyHeads_eq_carryOut foundConcrete (not_exists.mp expectedVar)]
      exact .meeting foundConcrete (not_exists.mp expectedVar)

/-! ## Runs -/

/-- The widths that are compared for pairs in turn, up to the first pair that is refused. -/
def comparisonsAlong (unifyPair : Ty → Ty → UnifyM Unit)
    (comparePair : Ty → Ty → Unification → List Comparison) :
    List (Ty × Ty) → Unification → List Comparison
  | [], _ => []
  | pair :: pairs, state =>
    comparePair pair.1 pair.2 state ++
      match unifyPair pair.1 pair.2 state with
      | .ok _ next => comparisonsAlong unifyPair comparePair pairs next
      | .error _ _ => []

/-- The widths that unification compares within so many levels, in order. -/
def comparisonsWithin : Nat → Ty → Ty → Unification → List Comparison
  | 0, _, _, _ => []
  | limit + 1, found, expected, state =>
    match onTypes (representative found) state with
    | .error _ _ => []
    | .ok foundHead first =>
      match onTypes (representative expected) first with
      | .error _ _ => []
      | .ok expectedHead middle =>
        (meet foundHead expectedHead).comparisons fun pairs =>
          comparisonsAlong (unifyWithin limit) (comparisonsWithin limit) pairs middle

/-- The widths that unification of the two types compares, in order. -/
def comparisons (found expected : Ty) (state : Unification) : List Comparison :=
  comparisonsWithin (state.types.unfoldLimit [found, expected]) found expected state

/-- The comparisons of one level are those of the heads that links lead to. -/
theorem comparisonsWithin_succ {levels : Nat} {foundHead expectedHead : Ty}
    {first middle : Unification}
    (foundRun : onTypes (representative found) state = .ok foundHead first)
    (expectedRun : onTypes (representative expected) first = .ok expectedHead middle) :
    comparisonsWithin (levels + 1) found expected state =
      (meet foundHead expectedHead).comparisons fun pairs =>
        comparisonsAlong (unifyWithin levels) (comparisonsWithin levels) pairs middle := by
  simp only [comparisonsWithin, foundRun, expectedRun]

/-- Work on the type store leaves the pending conditions alone. -/
theorem constraints_onTypes {α : Type} (step : StoreM α) (state : Unification) :
    (finalState (onTypes step state)).constraints = state.constraints := by
  unfold onTypes
  split
  · rfl
  · rfl

private theorem constraints_bindVar (id : TyVar) (ty : Ty) (state : Unification) :
    (finalState (bindVar id ty state)).constraints = state.constraints := by
  have searched := constraints_onTypes (occurs id ty) state
  unfold bindVar
  cases run : onTypes (occurs id ty) state with
  | error error middle =>
      rw [bind_of_error run]
      rwa [run] at searched
  | ok found middle =>
      rw [bind_of_ok run]
      rw [run] at searched
      cases found with
      | true => exact searched
      | false => exact (constraints_onTypes (assign id ty) middle).trans searched

/-- If each pair adds the equations of the widths that it compares, so do pairs in turn. -/
theorem constraints_forM {comparePair : Ty → Ty → Unification → List Comparison}
    (each : ∀ found expected state, (finalState (unifyPair found expected state)).constraints =
      state.constraints.after (comparePair found expected state)) (pairs : List (Ty × Ty)) :
    ∀ state, (finalState (pairs.forM (fun pair => unifyPair pair.1 pair.2) state)).constraints =
      state.constraints.after (comparisonsAlong unifyPair comparePair pairs state) := by
  induction pairs with
  | nil => exact fun state => (state.constraints.after_nil).symm
  | cons pair pairs ih =>
      intro state
      have first := each pair.1 pair.2 state
      rw [comparisonsAlong, Constraints.after_append, ← first]
      show (finalState ((unifyPair pair.1 pair.2 >>= fun _ =>
        pairs.forM fun pair => unifyPair pair.1 pair.2) state)).constraints = _
      cases run : unifyPair pair.1 pair.2 state with
      | error error next =>
          rw [bind_of_error run]
          exact (Constraints.after_nil _).symm
      | ok value next =>
          rw [bind_of_ok run]
          exact ih next

/-- A variable adds nothing, and other heads add what their meeting compares. -/
theorem constraints_unifyHeads {along : List (Ty × Ty) → List Comparison}
    (members : ∀ pairs : List (Ty × Ty),
      (finalState (pairs.forM (fun pair => unifyPair pair.1 pair.2) state)).constraints =
        state.constraints.after (along pairs)) (found expected : Ty) :
    (finalState (unifyHeads unifyPair found expected state)).constraints =
      state.constraints.after ((meet found expected).comparisons along) := by
  have nothing : state.constraints = state.constraints.after [] := by simp
  have encounter : Encounter unifyPair found expected _ := unifyHeads_encounter found expected
  generalize unifyHeads unifyPair found expected = heads at encounter
  cases encounter with
  | same id =>
      rw [meet_var_left]
      exact nothing
  | linkFound _ =>
      rw [meet_var_left]
      exact (constraints_bindVar _ _ state).trans nothing
  | linkExpected _ =>
      rw [meet_var_right]
      exact (constraints_bindVar _ _ state).trans nothing
  | meeting _ _ =>
      cases meet found expected with
      | agree => exact nothing
      | compare comparison => exact state.constraints.emitEqual_eq_after comparison
      | members pairs => exact members pairs
      | refuse error => exact nothing

/-- Unification adds the comparisons that it comes to, in order, also where it is refused. -/
theorem constraints_unifyWithin (levels : Nat) : ∀ (found expected : Ty) (state : Unification),
    (finalState (unifyWithin levels found expected state)).constraints =
      state.constraints.after (comparisonsWithin levels found expected state) := by
  induction levels with
  | zero => exact fun _ _ state => (state.constraints.after_nil).symm
  | succ levels ih =>
      intro found expected state
      rw [unifyWithin_succ]
      have foundKept := constraints_onTypes (representative found) state
      cases foundRun : onTypes (representative found) state with
      | error error first =>
          rw [foundRun] at foundKept
          rw [bind_of_error foundRun, comparisonsWithin, foundRun]
          exact foundKept.trans (state.constraints.after_nil).symm
      | ok foundHead first =>
          rw [foundRun] at foundKept
          rw [bind_of_ok foundRun]
          have expectedKept := constraints_onTypes (representative expected) first
          cases expectedRun : onTypes (representative expected) first with
          | error error middle =>
              rw [expectedRun] at expectedKept
              simp only [bind_of_error expectedRun, comparisonsWithin, foundRun, expectedRun]
              exact (expectedKept.trans foundKept).trans (state.constraints.after_nil).symm
          | ok expectedHead middle =>
              rw [expectedRun] at expectedKept
              have kept : middle.constraints = state.constraints := expectedKept.trans foundKept
              rw [bind_of_ok expectedRun, comparisonsWithin_succ foundRun expectedRun, ← kept]
              exact constraints_unifyHeads (fun pairs => constraints_forM ih pairs middle) foundHead
                expectedHead

/-- Unification adds the equations of the widths that it compares, also if it is refused. -/
theorem constraints_unify (found expected : Ty) (state : Unification) :
    (finalState (unify found expected state)).constraints =
      state.constraints.after (comparisons found expected state) :=
  constraints_unifyWithin _ found expected state

end Unification

end CircuitWidths
