import CircuitWidths.Proofs.Outcome

/-!
# Courses

Most of what is said about every step of a computation has one form: some facts are true of all
states that are reached, later states stand in a relation to earlier ones, and steps fail only in
certain ways.  A course fixes the three, and `Stays` says that a step keeps to them, whatever its
outcome is.  The rules that put steps together are proved here once for all courses.
-/

namespace CircuitWidths

/-- What is true of all states, how states follow each other, and how a step may fail. -/
structure Course (ε σ : Type) where
  holds : σ → Prop
  follows : σ → σ → Prop
  fails : σ → ε → σ → Prop
  refl : ∀ state, follows state state
  trans : ∀ {state middle next}, follows state middle → follows middle next → follows state next
  fails_later : ∀ {state middle error next}, follows state middle → fails middle error next →
    fails state error next

/-- Nothing is asked for but that one way to fail does not come up. -/
abbrev Course.avoiding {ε σ : Type} (avoided : ε) : Course ε σ where
  holds := fun _ => True
  follows := fun _ _ => True
  fails := fun _ error _ => error ≠ avoided
  refl := fun _ => trivial
  trans := fun _ _ => trivial
  fails_later := fun _ other => other

/-- An invariant is kept, whatever the outcome is. -/
abbrev Course.keeping {ε σ : Type} (invariant : σ → Prop) : Course ε σ where
  holds := invariant
  follows := fun _ _ => True
  fails := fun _ _ next => invariant next
  refl := fun _ => trivial
  trans := fun _ _ => trivial
  fails_later := fun _ kept => kept

/-- The step returns as `returns` allows, in a state on the course, or fails as the course allows. -/
def Stays {ε σ α : Type} (course : Course ε σ) (step : EStateM ε σ α) (state : σ)
    (returns : α → σ → Prop) : Prop :=
  Ends step state
    (fun value next => course.holds next ∧ course.follows state next ∧ returns value next)
    (course.fails state)

namespace Stays

variable {ε σ α β : Type} {course : Course ε σ} {state middle next : σ} {step : EStateM ε σ α}
  {rest : α → EStateM ε σ β} {value : α} {returns : α → σ → Prop}

/-- A run that returns stays on the course if its result and its state are allowed. -/
theorem of_ok (run : step state = .ok value next)
    (allowed : course.holds next ∧ course.follows state next ∧ returns value next) :
    Stays course step state returns :=
  Ends.of_ok run allowed

/-- A run that fails stays on the course if it fails as the course allows. -/
theorem of_error {error : ε} (run : step state = .error error next)
    (allowed : course.fails state error next) : Stays course step state returns :=
  Ends.of_error run allowed

/-- What is known of a run that returns. -/
theorem returned (stays : Stays course step state returns) (run : step state = .ok value next) :
    course.holds next ∧ course.follows state next ∧ returns value next :=
  (Ends.returned stays run :)

/-- What is known of a run that fails. -/
theorem failed (stays : Stays course step state returns) {error : ε}
    (run : step state = .error error next) : course.fails state error next :=
  Ends.failed stays run

protected theorem pure (holds : course.holds state) (allowed : returns value state) :
    Stays course (pure value) state returns :=
  Ends.pure ⟨holds, course.refl state, allowed⟩

protected theorem throw {error : ε} (allowed : course.fails state error state) :
    Stays course (throw error) state returns :=
  Ends.throw allowed

/-- What is known of the result and of the state may be weakened. -/
theorem imp {others : α → σ → Prop} (stays : Stays course step state returns)
    (weaken : ∀ value next, course.holds next → course.follows state next →
      returns value next → others value next) : Stays course step state others :=
  Ends.imp stays
    (fun value next ⟨holds, follows, returned⟩ =>
      ⟨holds, follows, weaken value next holds follows returned⟩)
    fun _ _ failed => failed

/-- A course may be left for one that asks for less. -/
theorem weaken {other : Course ε σ} (stays : Stays course step state returns)
    (ofHolds : ∀ next, course.holds next → other.holds next)
    (ofFollows : ∀ next, course.follows state next → other.follows state next)
    (ofFails : ∀ error next, course.fails state error next → other.fails state error next) :
    Stays other step state returns :=
  Ends.imp stays
    (fun _ next ⟨holds, follows, returned⟩ => ⟨ofHolds next holds, ofFollows next follows, returned⟩)
    ofFails

/-- What follows on a step is on the course of the step. -/
theorem later (follows : course.follows state middle) (stays : Stays course step middle returns) :
    Ends step middle
      (fun value next => course.holds next ∧ course.follows state next ∧ returns value next)
      (course.fails state) :=
  Ends.imp stays
    (fun _ _ ⟨holds, more, returned⟩ => ⟨holds, course.trans follows more, returned⟩)
    fun _ _ failed => course.fails_later follows failed

/-- Steps in sequence: the second may use where the first has left off. -/
theorem bind {between : α → σ → Prop} {returns : β → σ → Prop}
    (stays : Stays course step state between)
    (continues : ∀ value middle, course.holds middle → course.follows state middle →
      between value middle → Stays course (rest value) middle returns) :
    Stays course (step >>= rest) state returns :=
  Ends.bind stays fun value middle ⟨holds, follows, reached⟩ =>
    (continues value middle holds follows reached).later follows

theorem get_bind {rest : σ → EStateM ε σ β} {returns : β → σ → Prop}
    (continues : Stays course (rest state) state returns) :
    Stays course (get >>= rest) state returns :=
  continues

/-- A step for each item in turn, whose results stay related to the items along the course. -/
theorem mapM {each : α → EStateM ε σ β} {relates : α → β → σ → Prop}
    (lasting : ∀ {item result state next}, course.follows state next →
      relates item result state → relates item result next) {items : List α} :
    ∀ state : σ, course.holds state →
      (∀ item ∈ items, ∀ middle, course.holds middle → course.follows state middle →
        Stays course (each item) middle (relates item)) →
      Stays course (items.mapM each) state
        (fun results next => List.Forall₂ (fun item result => relates item result next)
          items results) := by
  induction items with
  | nil => exact fun state holds _ => .pure holds .nil
  | cons item items ih =>
      intro state holds eachStays
      rw [List.mapM_cons]
      refine .bind (eachStays item List.mem_cons_self state holds (course.refl _))
        fun result middle holds follows head => ?_
      refine .bind (ih middle holds fun other inside later laterHolds laterFollows =>
        eachStays other (List.mem_cons_of_mem _ inside) later laterHolds
          (course.trans follows laterFollows)) fun results next holds laterFollows tail => ?_
      exact .pure holds (.cons (lasting laterFollows head) tail)

/-- A step for each item in turn, whose results stay allowed along the course. -/
theorem mapM_all {each : α → EStateM ε σ β} {allowed : β → σ → Prop}
    (lasting : ∀ {result state next}, course.follows state next → allowed result state →
      allowed result next) {items : List α} (holds : course.holds state)
    (eachStays : ∀ item ∈ items, ∀ middle, course.holds middle → course.follows state middle →
      Stays course (each item) middle allowed) :
    Stays course (items.mapM each) state
      (fun results next => ∀ result ∈ results, allowed result next) := by
  have stays := @mapM ε σ α β course each (fun _ => allowed) lasting items state holds eachStays
  refine stays.imp fun results next _ _ related => ?_
  clear stays eachStays
  induction related with
  | nil => simp
  | cons head _ ih => exact List.forall_mem_cons.mpr ⟨head, ih⟩

/-- A check of each item in turn, whose outcomes stay true along the course. -/
theorem forM {each : α → EStateM ε σ PUnit} {allowed : α → σ → Prop}
    (lasting : ∀ {item state next}, course.follows state next → allowed item state →
      allowed item next) {items : List α} : ∀ state : σ, course.holds state →
      (∀ item ∈ items, ∀ middle, course.holds middle → course.follows state middle →
        Stays course (each item) middle fun _ => allowed item) →
      Stays course (items.forM each) state (fun _ next => ∀ item ∈ items, allowed item next) := by
  induction items with
  | nil => exact fun state holds _ => .pure holds (by simp)
  | cons item items ih =>
      intro state holds eachStays
      refine .bind (eachStays item List.mem_cons_self state holds (course.refl _))
        fun _ middle holds follows head => ?_
      refine (ih middle holds fun other inside later laterHolds laterFollows =>
        eachStays other (List.mem_cons_of_mem _ inside) later laterHolds
          (course.trans follows laterFollows)).imp fun _ next _ laterFollows tail => ?_
      exact List.forall_mem_cons.mpr ⟨lasting laterFollows head, tail⟩

/-- To stay on the course of an invariant is to preserve it. -/
theorem preserves {invariant : σ → Prop} {returns : α → Prop} (stays : ∀ state, invariant state →
      Stays (.keeping invariant) step state fun value _ => returns value) :
    Preserves invariant step returns :=
  fun state kept => Ends.imp (stays state kept)
    (fun _ _ returned => ⟨returned.1, returned.2.2⟩) fun _ _ failed => failed

end Stays

/-- A step that preserves an invariant stays on its course. -/
theorem Preserves.stays {ε σ α : Type} {step : EStateM ε σ α} {invariant : σ → Prop}
    {returns : α → Prop} {state : σ} (preserves : Preserves invariant step returns)
    (kept : invariant state) : Stays (.keeping invariant) step state fun value _ => returns value :=
  (preserves state kept).imp (fun _ _ returned => ⟨returned.1, trivial, returned.2⟩)
    fun _ _ failed => failed

end CircuitWidths
