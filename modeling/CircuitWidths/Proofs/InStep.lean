import CircuitWidths.Proofs.Outcome

/-!
# Two runs side by side

Two runs are in step if they have the same kind of outcome: both return, with values and states that
are related, or both fail, with related errors and states.  The rules below follow the structure of
the two programs, which is the same.
-/

namespace CircuitWidths

variable {ε σ α β : Type}

/-- Both outcomes are values that `returns` relates, or both are errors that `fails` relates. -/
inductive InStep (returns : α → α → σ → σ → Prop) (fails : ε → ε → σ → σ → Prop) :
    EStateM.Result ε σ α → EStateM.Result ε σ α → Prop
  | returned {value other : α} {next last : σ} (related : returns value other next last) :
      InStep returns fails (.ok value next) (.ok other last)
  | failed {error other : ε} {next last : σ} (related : fails error other next last) :
      InStep returns fails (.error error next) (.error other last)

namespace InStep

variable {returns : α → α → σ → σ → Prop} {fails : ε → ε → σ → σ → Prop}
  {step otherStep : EStateM ε σ α} {rest otherRest : α → EStateM ε σ β} {state partner : σ}

/-- What is known of two runs may be weakened. -/
theorem imp {others : α → α → σ → σ → Prop} {otherFails : ε → ε → σ → σ → Prop}
    {outcome otherOutcome : EStateM.Result ε σ α} (inStep : InStep returns fails outcome otherOutcome)
    (onReturn : ∀ value other next last, returns value other next last →
      others value other next last)
    (onFail : ∀ error other next last, fails error other next last →
      otherFails error other next last) : InStep others otherFails outcome otherOutcome := by
  cases inStep with
  | returned related => exact .returned (onReturn _ _ _ _ related)
  | failed related => exact .failed (onFail _ _ _ _ related)

/-- Steps in sequence: the second ones start where the first ones have left off. -/
theorem bind {between : α → α → σ → σ → Prop} {returns : β → β → σ → σ → Prop}
    (first : InStep between fails (step state) (otherStep partner))
    (continues : ∀ value other next last, between value other next last →
      InStep returns fails (rest value next) (otherRest other last)) :
    InStep returns fails ((step >>= rest) state) ((otherStep >>= otherRest) partner) := by
  generalize run : step state = outcome at first
  generalize otherRun : otherStep partner = otherOutcome at first
  cases first with
  | returned related =>
      rw [bind_of_ok run, bind_of_ok otherRun]
      exact continues _ _ _ _ related
  | failed related =>
      rw [bind_of_error run, bind_of_error otherRun]
      exact .failed related

/-- A step for each of two related items in turn, over states that keep an invariant. -/
theorem mapM {each otherEach : α → EStateM ε σ β} {invariant : σ → σ → Prop}
    {relates : α → α → Prop} {results : β → β → Prop} {items others : List α}
    (related : List.Forall₂ relates items others)
    (eachInStep : ∀ item other, relates item other → ∀ state partner, invariant state partner →
      InStep (fun value result next last => invariant next last ∧ results value result) fails
        (each item state) (otherEach other partner)) :
    ∀ state partner, invariant state partner →
      InStep (fun values others next last => invariant next last ∧
        List.Forall₂ results values others) fails
        (items.mapM each state) (others.mapM otherEach partner) := by
  induction related with
  | nil => exact fun state partner kept => .returned ⟨kept, .nil⟩
  | @cons item other items others head _ ih =>
      intro state partner kept
      rw [List.mapM_cons, List.mapM_cons]
      apply bind (eachInStep item other head state partner kept)
      rintro value result next last ⟨kept, first⟩
      apply bind (ih next last kept)
      rintro values otherValues final otherFinal ⟨kept, rest⟩
      exact .returned ⟨kept, .cons first rest⟩

/-- Steps for items that are related one by one keep what relates the states. -/
theorem forM {each otherEach : α → EStateM ε σ PUnit} {invariant : σ → σ → Prop}
    {relates : α → α → Prop} {items others : List α}
    (related : List.Forall₂ relates items others)
    (eachInStep : ∀ item other, relates item other → ∀ state partner, invariant state partner →
      InStep (fun _ _ next last => invariant next last) fails
        (each item state) (otherEach other partner)) :
    ∀ state partner, invariant state partner →
      InStep (fun _ _ next last => invariant next last) fails
        (items.forM each state) (others.forM otherEach partner) := by
  induction related with
  | nil => exact fun state partner kept => .returned kept
  | @cons item other items others head _ ih =>
      intro state partner kept
      apply bind (eachInStep item other head state partner kept)
      intro _ _ next last kept
      exact ih next last kept

end InStep

end CircuitWidths
