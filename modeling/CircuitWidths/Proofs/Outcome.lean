import Mathlib.Data.List.Forall2

/-!
# Outcomes of steps

A step over a state returns a value or fails, and leaves a state behind in both cases.  `Ends`
says what is true of each outcome.  Specifications of the steps of checking have this form, and
the rules below put them together along the structure of a program.
-/

namespace CircuitWidths

variable {ε σ α β : Type}

/-- Started at `state`, the step returns only what `returns` allows and fails only as `fails`
allows. -/
def Ends (step : EStateM ε σ α) (state : σ) (returns : α → σ → Prop) (fails : ε → σ → Prop) :
    Prop :=
  match step state with
  | .ok value next => returns value next
  | .error error next => fails error next

/-- The state that an outcome leaves behind. -/
def finalState : EStateM.Result ε σ α → σ
  | .ok _ next => next
  | .error _ next => next

/-- Whether the outcome is a value. -/
def hasReturned : EStateM.Result ε σ α → Bool
  | .ok _ _ => true
  | .error _ _ => false

/-- What an outcome returns, if it does. -/
def returned? : EStateM.Result ε σ α → Option α
  | .ok value _ => some value
  | .error _ _ => none

/-- How an outcome fails, if it does. -/
def failure? : EStateM.Result ε σ α → Option ε
  | .ok _ _ => none
  | .error error _ => some error

/-- No failure is possible. -/
def Never {ε σ : Type} : ε → σ → Prop := fun _ _ => False

/-- After a step that returns, the rest goes on with its value and its state. -/
theorem bind_of_ok {step : EStateM ε σ α} {rest : α → EStateM ε σ β} {state next : σ} {value : α}
    (run : step state = .ok value next) : (step >>= rest) state = rest value next := by
  show EStateM.bind step rest state = _
  rw [EStateM.bind, run]

/-- After a step that fails, the rest is left out. -/
theorem bind_of_error {step : EStateM ε σ α} {rest : α → EStateM ε σ β} {state next : σ}
    {error : ε} (run : step state = .error error next) :
    (step >>= rest) state = .error error next := by
  show EStateM.bind step rest state = _
  rw [EStateM.bind, run]

/-- Steps in sequence that return have both returned. -/
theorem exists_of_bind_ok {step : EStateM ε σ α} {rest : α → EStateM ε σ β} {state next : σ}
    {result : β} (run : (step >>= rest) state = .ok result next) :
    ∃ value middle, step state = .ok value middle ∧ rest value middle = .ok result next := by
  cases first : step state with
  | ok value middle =>
      rw [bind_of_ok first] at run
      exact ⟨value, middle, rfl, run⟩
  | error error middle =>
      rw [bind_of_error first] at run
      cases run

/-- An outcome that counts as returned has a value. -/
theorem exists_of_hasReturned {outcome : EStateM.Result ε σ α} (returned : hasReturned outcome) :
    ∃ value next, outcome = .ok value next := by
  cases outcome with
  | ok value next => exact ⟨value, next, rfl⟩
  | error error next => cases returned

/-- An outcome with a failure has failed. -/
theorem exists_of_failure? {outcome : EStateM.Result ε σ α} {error : ε}
    (failed : failure? outcome = some error) : ∃ next, outcome = .error error next := by
  cases outcome with
  | ok value next => cases failed
  | error found next => exact ⟨next, by rw [Option.some.inj failed]⟩

/-- When a step for one of the items has failed, the steps for all items before it have returned. -/
theorem exists_of_mapM_error {each : α → EStateM ε σ β} {items : List α} : ∀ {state next : σ}
    {error : ε}, items.mapM each state = .error error next →
      ∃ before item after results middle, items = before ++ item :: after ∧
        before.mapM each state = .ok results middle ∧ each item middle = .error error next := by
  induction items with
  | nil =>
      intro state next error run
      cases run
  | cons item items ih =>
      intro state next error run
      rw [List.mapM_cons] at run
      cases headRun : each item state with
      | error stop middle =>
          rw [bind_of_error headRun] at run
          cases run
          exact ⟨[], item, items, [], state, rfl, rfl, headRun⟩
      | ok value middle =>
          rw [bind_of_ok headRun] at run
          cases tailRun : items.mapM each middle with
          | ok others last =>
              rw [bind_of_ok tailRun] at run
              cases run
          | error stop last =>
              rw [bind_of_error tailRun] at run
              cases run
              obtain ⟨before, failing, after, results, reached, rfl, beforeRun, failed⟩ :=
                ih tailRun
              refine ⟨item :: before, failing, after, value :: results, reached, rfl, ?_, failed⟩
              rw [List.mapM_cons, bind_of_ok headRun, bind_of_ok beforeRun]
              rfl

namespace Ends

variable {step : EStateM ε σ α} {rest : α → EStateM ε σ β} {state next : σ} {value : α}
  {returns : α → σ → Prop} {fails : ε → σ → Prop}

/-- A run that returns ends well if its value and its state are allowed. -/
theorem of_ok (run : step state = .ok value next) (allowed : returns value next) :
    Ends step state returns fails := by
  rw [Ends, run]
  exact allowed

/-- A run that fails ends well if this failure is allowed. -/
theorem of_error {error : ε} (run : step state = .error error next)
    (allowed : fails error next) : Ends step state returns fails := by
  rw [Ends, run]
  exact allowed

/-- Nothing is said about failures. -/
theorem of_returned
    (allowed : ∀ value next, step state = .ok value next → returns value next) :
    Ends step state returns fun _ _ => True := by
  cases run : step state with
  | ok value next => exact of_ok run (allowed value next run)
  | error error next => exact of_error run trivial

/-- What is known of a run that returns. -/
theorem returned (ends : Ends step state returns fails) (run : step state = .ok value next) :
    returns value next := by
  rw [Ends, run] at ends
  exact ends

/-- What is known of a run that fails. -/
theorem failed (ends : Ends step state returns fails) {error : ε}
    (run : step state = .error error next) : fails error next := by
  rw [Ends, run] at ends
  exact ends

/-- A step that can not fail returns. -/
theorem exists_ok (ends : Ends step state returns Never) :
    ∃ value next, step state = .ok value next ∧ returns value next := by
  cases run : step state with
  | ok value next => exact ⟨value, next, rfl, ends.returned run⟩
  | error error next => exact (ends.failed run).elim

/-- What every outcome leaves behind is true of the final state. -/
theorem final (kept : σ → Prop) (ends : Ends step state returns fails)
    (onReturn : ∀ value next, returns value next → kept next)
    (onFail : ∀ error next, fails error next → kept next) : kept (finalState (step state)) := by
  cases run : step state with
  | ok value next => exact onReturn value next (ends.returned run)
  | error error next => exact onFail error next (ends.failed run)

protected theorem pure (allowed : returns value state) :
    Ends (pure value) state returns fails := allowed

protected theorem throw {error : ε} (allowed : fails error state) :
    Ends (throw error : EStateM ε σ α) state returns fails := allowed

protected theorem modify {change : σ → σ} {returns : PUnit → σ → Prop}
    (allowed : returns ⟨⟩ (change state)) :
    Ends (modify change : EStateM ε σ PUnit) state returns fails := allowed

/-- What is true of each outcome may be weakened. -/
theorem imp {others : α → σ → Prop} {otherFails : ε → σ → Prop}
    (ends : Ends step state returns fails)
    (onReturn : ∀ value next, returns value next → others value next)
    (onFail : ∀ error next, fails error next → otherFails error next) :
    Ends step state others otherFails := by
  unfold Ends at ends ⊢
  split at ends
  · exact onReturn _ _ ends
  · exact onFail _ _ ends

/-- Two descriptions of a step are true of the same outcome. -/
protected theorem and {others : α → σ → Prop} {otherFails : ε → σ → Prop}
    (ends : Ends step state returns fails) (other : Ends step state others otherFails) :
    Ends step state (fun value next => returns value next ∧ others value next)
      (fun error next => fails error next ∧ otherFails error next) := by
  cases run : step state with
  | ok value next => exact of_ok run ⟨ends.returned run, other.returned run⟩
  | error error next => exact of_error run ⟨ends.failed run, other.failed run⟩

/-- Where a step can not fail, only its result matters. -/
theorem never {others : α → σ → Prop} (ends : Ends step state returns Never)
    (onReturn : ∀ value next, returns value next → others value next) :
    Ends step state others fails :=
  ends.imp onReturn fun _ _ impossible => impossible.elim

/-- A first step whose outcome is known. -/
theorem after {returns : β → σ → Prop} (run : step state = .ok value next)
    (continues : Ends (rest value) next returns fails) :
    Ends (step >>= rest) state returns fails := by
  rw [Ends, bind_of_ok run]
  exact continues

/-- Steps in sequence: the second starts where the first has left off. -/
theorem bind {middle : α → σ → Prop} {returns : β → σ → Prop}
    (ends : Ends step state middle fails)
    (continues : ∀ value next, middle value next → Ends (rest value) next returns fails) :
    Ends (step >>= rest) state returns fails := by
  cases run : step state with
  | ok value next => exact after run (continues value next (ends.returned run))
  | error error next => exact of_error (bind_of_error run) (ends.failed run)

/-- Steps in sequence, the first of which has its own ways to fail. -/
theorem andThen {middle : α → σ → Prop} {ownFails : ε → σ → Prop} {returns : β → σ → Prop}
    (ends : Ends step state middle ownFails)
    (onFail : ∀ error next, ownFails error next → fails error next)
    (continues : ∀ value next, middle value next → Ends (rest value) next returns fails) :
    Ends (step >>= rest) state returns fails :=
  (ends.imp (fun _ _ reached => reached) onFail).bind continues

/-- A step for each item in turn, over states that keep an invariant. -/
theorem mapM {each : α → EStateM ε σ β} {invariant : σ → Prop} {relates : α → β → Prop}
    {items : List α} (eachEnds : ∀ item ∈ items, ∀ state, invariant state →
      Ends (each item) state (fun result next => invariant next ∧ relates item result) fails) :
    ∀ state, invariant state → Ends (items.mapM each) state
      (fun results next => invariant next ∧ List.Forall₂ relates items results) fails := by
  induction items with
  | nil => exact fun state kept => .pure ⟨kept, .nil⟩
  | cons item items ih =>
      intro state kept
      rw [List.mapM_cons]
      refine .bind (eachEnds item List.mem_cons_self state kept) fun result next ⟨kept, head⟩ => ?_
      refine .bind (ih (fun other later => eachEnds other (List.mem_cons_of_mem _ later)) next kept)
        fun results last ⟨kept, tail⟩ => ?_
      exact .pure ⟨kept, .cons head tail⟩

/-- A test of each item in turn, up to the first that passes. -/
theorem anyM {each : α → EStateM ε σ Bool} {invariant : σ → Prop} {passes : α → Prop}
    {items : List α} (eachEnds : ∀ item ∈ items, ∀ state, invariant state →
      Ends (each item) state (fun found next => invariant next ∧ (found = true ↔ passes item))
        fails) :
    ∀ state, invariant state → Ends (items.anyM each) state
      (fun found next => invariant next ∧ (found = true ↔ ∃ item ∈ items, passes item))
        fails := by
  induction items with
  | nil => exact fun state kept => .pure ⟨kept, by simp⟩
  | cons item items ih =>
      intro state kept
      rw [List.anyM_cons]
      refine .bind (eachEnds item List.mem_cons_self state kept) fun found next ⟨kept, head⟩ => ?_
      cases found with
      | true => exact .pure ⟨kept, by simp [head.mp rfl]⟩
      | false =>
          have absent : ¬ passes item := by simpa using head
          refine (ih (fun other later => eachEnds other (List.mem_cons_of_mem _ later))
            next kept).imp (fun found last ⟨kept, tail⟩ => ⟨kept, ?_⟩) fun _ _ failed => failed
          simp [tail, absent]

/-- A step for each item in turn that returns nothing. -/
theorem forM {each : α → EStateM ε σ PUnit} {invariant : σ → Prop} {items : List α}
    (eachEnds : ∀ item ∈ items, ∀ state, invariant state →
      Ends (each item) state (fun _ next => invariant next) fails) :
    ∀ state, invariant state →
      Ends (items.forM each) state (fun _ next => invariant next) fails := by
  induction items with
  | nil => exact fun state kept => .pure kept
  | cons item items ih =>
      intro state kept
      obtain ⟨head, tail⟩ := List.forall_mem_cons.mp eachEnds
      exact .bind (head state kept) fun _ next kept => ih tail next kept

end Ends

/-! ## Steps that keep an invariant -/

/-- Whether the step returns or fails, it keeps the invariant, and it returns only what `returns`
allows. -/
def Preserves (invariant : σ → Prop) (step : EStateM ε σ α) (returns : α → Prop) : Prop :=
  ∀ state, invariant state →
    Ends step state (fun value next => invariant next ∧ returns value) fun _ next => invariant next

namespace Preserves

variable {invariant : σ → Prop} {step : EStateM ε σ α} {rest : α → EStateM ε σ β} {value : α}
  {returns : α → Prop}

protected theorem pure (allowed : returns value) :
    Preserves invariant (pure value : EStateM ε σ α) returns :=
  fun _ kept => .pure ⟨kept, allowed⟩

protected theorem throw {error : ε} :
    Preserves invariant (throw error : EStateM ε σ α) returns :=
  fun _ kept => .throw kept

/-- Steps in sequence preserve what each of them preserves. -/
theorem bind {returns : β → Prop} {between : α → Prop} (first : Preserves invariant step between)
    (second : ∀ value, between value → Preserves invariant (rest value) returns) :
    Preserves invariant (step >>= rest) returns :=
  fun state kept => .bind (first state kept)
    fun value middle ⟨kept, reached⟩ => second value reached middle kept

/-- Looking at the state changes nothing. -/
theorem get_bind {rest : σ → EStateM ε σ β} {returns : β → Prop}
    (continues : ∀ state, Preserves invariant (rest state) returns) :
    Preserves invariant (get >>= rest) returns :=
  fun state kept => continues state state kept

/-- A step for each item in turn preserves what each step preserves. -/
theorem mapM {each : α → EStateM ε σ β} {relates : β → Prop} {items : List α}
    (eachPreserves : ∀ item ∈ items, Preserves invariant (each item) relates) :
    Preserves invariant (items.mapM each) (fun results => ∀ result ∈ results, relates result) := by
  induction items with
  | nil => exact .pure (by simp)
  | cons item items ih =>
      obtain ⟨head, tail⟩ := List.forall_mem_cons.mp eachPreserves
      rw [List.mapM_cons]
      refine .bind head fun result allowed => .bind (ih tail) fun results others => ?_
      exact .pure (List.forall_mem_cons.mpr ⟨allowed, others⟩)

/-- A search through items preserves what each step preserves. -/
theorem anyM {each : α → EStateM ε σ Bool} {items : List α}
    (eachPreserves : ∀ item ∈ items, Preserves invariant (each item) fun _ => True) :
    Preserves invariant (items.anyM each) fun _ => True := by
  induction items with
  | nil => exact .pure trivial
  | cons item items ih =>
      obtain ⟨head, tail⟩ := List.forall_mem_cons.mp eachPreserves
      rw [List.anyM_cons]
      refine .bind head fun found _ => ?_
      cases found with
      | true => exact .pure trivial
      | false => exact ih tail

/-- A check of each item in turn preserves what each step preserves. -/
theorem forM {each : α → EStateM ε σ PUnit} {items : List α}
    (eachPreserves : ∀ item ∈ items, Preserves invariant (each item) fun _ => True) :
    Preserves invariant (items.forM each) fun _ => True := by
  induction items with
  | nil => exact .pure trivial
  | cons item items ih =>
      obtain ⟨head, tail⟩ := List.forall_mem_cons.mp eachPreserves
      exact .bind head fun _ _ => ih tail

end Preserves

end CircuitWidths
