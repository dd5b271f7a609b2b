import CircuitWidths.Proofs.Check.Steps
import CircuitWidths.Proofs.Ty.Shape

/-!
# Steps that ask something of shapes

Before conditions are solved, a step of a check can only stop because wires can not have the shapes
that it asks for, or for reasons that have nothing to do with types.  `Narrows` says what a step asks
for: it returns exactly if some shapes of the type variables give it, and leaves these shapes.
-/

namespace CircuitWidths

open CheckM TypeStore

/-- The check has stopped, and not because conditions contradict each other. -/
def Stop.Early (stop : Stop) : Prop :=
  ∀ span condition, stop ≠ .rejected ⟨span, .contradiction condition⟩

private theorem Stop.Early.of_cause {span : Source.Span} {cause : Cause}
    (early : ∀ condition, cause ≠ .contradiction condition) :
    (Stop.rejected ⟨span, cause⟩).Early := by
  intro other condition same
  cases same
  exact early condition rfl

variable {checker next : Checker} {α β γ δ : Type}

/-- The step returns if it can get what it asks of the shapes, and leaves exactly the shapes that
give it; otherwise it stops.  What it returns is seen through `view`. -/
def Narrows (step : CheckM α) (checker : Checker) (view : α → Shapes → γ)
    (asks : Shapes → γ → Prop) : Prop :=
  Ends step checker
    (fun value next => ∀ shapes result, (next.types.Shaped shapes ∧ view value shapes = result) ↔
      (checker.types.Shaped shapes ∧ asks shapes result))
    (fun stop _ => stop.Early ∧ ∀ shapes result, checker.types.Shaped shapes → ¬ asks shapes result)

namespace Narrows

variable {step : CheckM α} {rest : α → CheckM β} {value : α} {view : α → Shapes → γ}
  {asks others : Shapes → γ → Prop}

protected theorem pure (same : ∀ shapes result, view value shapes = result ↔ asks shapes result) :
    Narrows (pure value) checker view asks :=
  Ends.pure fun shapes result => and_congr_right fun _ => same shapes result

/-- A rejection for another reason than a contradiction, where nothing can be asked for. -/
theorem reject {span : Source.Span} {cause : Cause}
    (early : ∀ condition, cause ≠ .contradiction condition)
    (refused : ∀ shapes result, ¬ asks shapes result) :
    Narrows (CheckM.reject span cause) checker view asks :=
  Ends.throw ⟨.of_cause early, fun shapes result _ => refused shapes result⟩

/-- What a step asks of the shapes may be said in another way. -/
theorem congr (narrows : Narrows step checker view asks)
    (same : ∀ shapes result, asks shapes result ↔ others shapes result) :
    Narrows step checker view others := by
  apply Ends.imp narrows
  · intro value next exactly shapes result
    rw [exactly, same]
  · rintro stop _ ⟨early, refused⟩
    exact ⟨early, fun shapes result shaped allowed =>
      refused shapes result shaped ((same shapes result).mpr allowed)⟩

/-- A step that leaves the links alone and always returns asks for nothing. -/
theorem of_ok {asks : Shapes → Unit → Prop} (run : step checker = .ok value next)
    (types : next.types = checker.types) (free : ∀ shapes result, asks shapes result) :
    Narrows step checker (fun _ _ => ()) asks := by
  apply Ends.of_ok run
  intro shapes result
  rw [types]
  exact and_congr_right fun _ => iff_of_true rfl (free shapes result)

/-- Steps in sequence: the second one may ask for something about what the first one returned. -/
theorem bind {viewRest : β → Shapes → δ} (continuing : Shapes → γ → δ → Prop)
    (first : Narrows step checker view asks)
    (continues : ∀ value next, step checker = .ok value next → Narrows (rest value) next viewRest
      fun shapes result => continuing shapes (view value shapes) result) :
    Narrows (step >>= rest) checker viewRest fun shapes result =>
      ∃ between, asks shapes between ∧ continuing shapes between result := by
  cases run : step checker with
  | error stop next =>
      obtain ⟨early, refused⟩ := Ends.failed first run
      apply Ends.of_error (bind_of_error run)
      refine ⟨early, ?_⟩
      rintro shapes result shaped ⟨between, asked, _⟩
      exact refused shapes between shaped asked
  | ok value middle =>
      have exactly := Ends.returned first run
      apply Ends.after run
      apply Ends.imp (continues value middle run)
      · intro last next continuesExactly shapes result
        rw [continuesExactly]
        constructor
        · rintro ⟨shaped, continued⟩
          obtain ⟨before, asked⟩ := (exactly shapes _).mp ⟨shaped, rfl⟩
          exact ⟨before, _, asked, continued⟩
        · rintro ⟨before, between, asked, continued⟩
          obtain ⟨shaped, rfl⟩ := (exactly shapes between).mpr ⟨before, asked⟩
          exact ⟨shaped, continued⟩
      · rintro stop _ ⟨early, refused⟩
        refine ⟨early, ?_⟩
        rintro shapes result before ⟨between, asked, continued⟩
        obtain ⟨shaped, rfl⟩ := (exactly shapes between).mpr ⟨before, asked⟩
        exact refused shapes result shaped continued

/-- Looking at the state asks nothing of the shapes. -/
theorem get_bind {rest : Checker → CheckM β} {viewRest : β → Shapes → δ}
    {asksRest : Shapes → δ → Prop} (continues : Narrows (rest checker) checker viewRest asksRest) :
    Narrows (get >>= rest) checker viewRest asksRest :=
  continues

/-- A first step that returns nothing only adds to what is asked. -/
theorem demand {demanded : Shapes → Prop} {viewRest : β → Shapes → δ}
    {asksRest : Shapes → δ → Prop}
    (first : Narrows step checker (fun _ _ => ()) (fun shapes _ => demanded shapes))
    (continues : ∀ value next, step checker = .ok value next →
      Narrows (rest value) next viewRest asksRest) :
    Narrows (step >>= rest) checker viewRest
      (fun shapes result => demanded shapes ∧ asksRest shapes result) := by
  apply congr (bind (fun shapes _ result => asksRest shapes result) first continues)
  intro shapes result
  exact exists_const Unit

/-- What a step returns may be passed over. -/
theorem forget (narrows : Narrows step checker view asks) :
    Narrows step checker (fun _ _ => ()) (fun shapes _ => ∃ result, asks shapes result) := by
  apply Ends.imp narrows
  · intro value next exactly shapes _
    constructor
    · rintro ⟨shaped, _⟩
      obtain ⟨before, asked⟩ := (exactly shapes _).mp ⟨shaped, rfl⟩
      exact ⟨before, _, asked⟩
    · rintro ⟨before, result, asked⟩
      exact ⟨((exactly shapes result).mpr ⟨before, asked⟩).1, rfl⟩
  · rintro stop _ ⟨early, refused⟩
    refine ⟨early, ?_⟩
    rintro shapes _ shaped ⟨result, asked⟩
    exact refused shapes result shaped asked

/-- A last step that returns something of no shape. -/
theorem done {value : α} : Narrows (pure value) checker (fun _ _ => ()) (fun _ _ => True) :=
  .pure fun _ _ => iff_of_true rfl trivial

/-- A step for each item in turn, over states that keep an invariant. -/
theorem mapM {each : α → CheckM β} {view : β → Shapes → γ} {asks : α → Shapes → γ → Prop}
    {invariant : Checker → Prop} {items : List α}
    (eachNarrows : ∀ item ∈ items, ∀ middle, invariant middle →
      Narrows (each item) middle view (asks item) ∧
        ∀ value next, each item middle = .ok value next → invariant next) :
    ∀ checker, invariant checker → Narrows (items.mapM each) checker
      (fun values shapes => values.map fun value => view value shapes)
      (fun shapes results => List.Forall₂ (fun item result => asks item shapes result)
        items results) := by
  induction items with
  | nil =>
      intro checker _
      apply Narrows.pure
      intro shapes results
      rw [List.forall₂_nil_left_iff]
      exact eq_comm
  | cons item items ih =>
      intro checker kept
      obtain ⟨narrows, keeps⟩ := eachNarrows item List.mem_cons_self checker kept
      have others := ih fun other inside => eachNarrows other (List.mem_cons_of_mem _ inside)
      rw [List.mapM_cons]
      apply congr
      · apply bind (fun shapes head results => ∃ tail, List.Forall₂ (fun item result =>
          asks item shapes result) items tail ∧ head :: tail = results) narrows
        intro value middle run
        apply bind (fun shapes tail results => view value shapes :: tail = results)
          (others middle (keeps value middle run))
        intro values last _
        exact .pure fun shapes results => Iff.rfl
      · intro shapes results
        rw [List.forall₂_cons_left_iff]
        constructor
        · rintro ⟨head, asked, tail, tailAsked, rfl⟩
          exact ⟨head, tail, asked, tailAsked, rfl⟩
        · rintro ⟨head, tail, asked, tailAsked, rfl⟩
          exact ⟨head, asked, tail, tailAsked, rfl⟩

end Narrows

namespace CheckM

/-- A check of kinds asks nothing of the shapes. -/
theorem expectKind_narrows (span : Source.Span) (expr : Static.Expr) (kind : Static.Kind) :
    Narrows (expectKind span expr kind) checker (fun _ _ => ()) (fun _ _ => expr.HasKind kind) := by
  by_cases hasKind : expr.HasKind kind
  · exact .of_ok (expectKind_run hasKind) rfl fun _ _ => hasKind
  · unfold expectKind
    cases outcome : expr.expectKind kind with
    | ok => exact (hasKind (Static.Expr.hasKind_of_expectKind outcome)).elim
    | error mismatch => exact .reject (by simp) fun _ _ => hasKind

/-- Generated widths ask nothing of the shapes. -/
theorem generate_narrows (count : Nat) :
    Narrows (generate count) checker (fun _ _ => ()) (fun _ _ => True) :=
  .of_ok rfl rfl fun _ _ => trivial

/-- A step on the type store does not stop because of contradictory conditions. -/
theorem onTypes_stops (step : StoreM α) (checker : Checker) {refused : Prop} (holds : refused) :
    Ends (onTypes step) checker (fun _ _ => True) (fun stop _ => stop.Early ∧ refused) := by
  cases run : step checker.types with
  | ok value types => exact .of_ok (by rw [onTypes, run]) trivial
  | error fault types => exact .of_error (by rw [onTypes, run]) ⟨by simp [Stop.Early], holds⟩

/-- Two types are made equal exactly if they can have the same shape. -/
theorem unifyAt_narrows (span : Source.Span) {found expected : Ty}
    (wellFormed : checker.types.WellFormed) (foundOver : found.Over checker.types)
    (expectedOver : expected.Over checker.types) :
    Narrows (unifyAt span found expected) checker (fun _ _ => ())
      (fun shapes _ => found.shape shapes = expected.shape shapes) := by
  have ends := Unification.unify_shapes checker.toUnification wellFormed foundOver expectedOver
  cases outcome : Unification.unify found expected checker.toUnification with
  | ok value state =>
      apply Ends.of_ok (unifyAt_run outcome)
      intro shapes result
      rw [and_iff_left rfl]
      exact ends.returned outcome shapes
  | error error state =>
      have refused : ∀ (shapes : Shapes) (_ : Unit), checker.types.Shaped shapes →
          found.shape shapes ≠ expected.shape shapes :=
        fun shapes _ shaped => ends.failed outcome shapes shaped
      have tried : tryUnify found expected checker =
          .ok (.error error) { checker with toUnification := state } := by rw [tryUnify, outcome]
      apply Ends.after tried
      cases error with
      | mismatch =>
          apply Ends.bind (onTypes_stops _ _ refused)
          intro resolvedFound _ _
          apply Ends.bind (onTypes_stops _ _ refused)
          intro resolvedExpected _ _
          exact .throw ⟨.of_cause (by simp), refused⟩
      | resultArity foundCount expectedCount => exact .throw ⟨.of_cause (by simp), refused⟩
      | fault fault => exact .throw ⟨by simp [Stop.Early], refused⟩

end CheckM

end CircuitWidths
