import CircuitWidths.Constraint.Solve
import CircuitWidths.Proofs.Static.Meaning

/-!
# What solving keeps

Solving rewrites a list of conditions step by step: it folds all of them, and then eliminates one
variable after another.  Each step is a reduction (`Reduces`): what met the conditions before
meets them after, and what meets them after can be changed on eliminated variables only so that it
meets them before.  Reductions compose, so a whole run is one (`solve_reduces`), and a run that
stops at a contradiction shows that nothing meets the conditions it started from.
-/

namespace CircuitWidths

namespace Static

/-- The variable stands in one of the conditions. -/
def Mentioned (name : String) (conditions : List Expr) : Prop :=
  ∃ condition ∈ conditions, condition.mentions name = true

/-- Rewriting `before` to `after` loses nothing but the values of variables that are neither
parameters nor left in `after`. -/
structure Reduces (reading : Reading) (params : List String) (before after : List Expr) : Prop where
  keeps : ∀ values, AllHold reading values before → AllHold reading values after
  restores : ∀ values, AllHold reading values after → ∃ restored,
    AllHold reading restored before ∧
      ∀ name, name ∈ params ∨ Mentioned name after → restored name = values name
  narrows : ∀ name, Mentioned name after → Mentioned name before

namespace Reduces

variable {reading : Reading} {params : List String} {first second third : List Expr}

private theorem refl (conditions : List Expr) : Reduces reading params conditions conditions where
  keeps := fun _ met => met
  restores := fun values met => ⟨values, met, fun _ _ => rfl⟩
  narrows := fun _ mentioned => mentioned

private theorem trans (earlier : Reduces reading params first second)
    (later : Reduces reading params second third) : Reduces reading params first third where
  keeps := fun values met => later.keeps values (earlier.keeps values met)
  restores := by
    intro values met
    obtain ⟨middle, metMiddle, keptMiddle⟩ := later.restores values met
    obtain ⟨restored, metFirst, keptFirst⟩ := earlier.restores middle metMiddle
    refine ⟨restored, metFirst, fun name fixed => ?_⟩
    -- A variable left at the end was there in the middle, so neither change touched it.
    rw [keptFirst name (fixed.imp_right (later.narrows name)), keptMiddle name fixed]
  narrows := fun name mentioned => earlier.narrows name (later.narrows name mentioned)

end Reduces

/-! ## Settling -/

section Settling

variable {reading : Reading} {step : Expr → Expr} {conditions settled : List Expr}

/-- One condition is dropped, kept in its new form, or contradictory. -/
theorem settle_cons_cases (step : Expr → Expr) (condition : Expr) (rest : List Expr) :
    (step condition = .bool true ∧ settle step (condition :: rest) = settle step rest) ∨
    (step condition = .bool false ∧ settle step (condition :: rest) = .error ⟨condition⟩) ∨
    settle step (condition :: rest) = (settle step rest).map (step condition :: ·) := by
  rw [settle]
  split
  · rename_i decided
    exact .inl ⟨decided, rfl⟩
  · rename_i decided
    exact .inr (.inl ⟨decided, rfl⟩)
  · exact .inr (.inr rfl)

/-- Settled conditions are met exactly where all conditions are met after the step. -/
theorem settle_holds (run : settle step conditions = .ok settled) (values : Valuation) :
    AllHold reading values settled ↔
      ∀ condition ∈ conditions, (step condition).Holds reading values := by
  induction conditions generalizing settled with
  | nil =>
      obtain rfl := Except.ok.inj run
      simp
  | cons condition rest ih =>
      rw [List.forall_mem_cons]
      rcases settle_cons_cases step condition rest with
        ⟨decided, eq⟩ | ⟨decided, eq⟩ | eq
      · rw [eq] at run
        rw [ih run, decided]
        simp
      · rw [eq] at run
        cases run
      · rw [eq] at run
        cases tail : settle step rest with
        | error contradiction => rw [tail] at run; cases run
        | ok others =>
            rw [tail] at run
            obtain rfl := Except.ok.inj run
            rw [allHold_cons, ih tail]

/-- A variable of the settled conditions stands in a condition after the step. -/
theorem settle_mentioned (run : settle step conditions = .ok settled) {name : String}
    (mentioned : Mentioned name settled) :
    ∃ condition ∈ conditions, (step condition).mentions name = true := by
  induction conditions generalizing settled with
  | nil =>
      obtain rfl := Except.ok.inj run
      obtain ⟨condition, member, _⟩ := mentioned
      cases member
  | cons condition rest ih =>
      rcases settle_cons_cases step condition rest with
        ⟨decided, eq⟩ | ⟨decided, eq⟩ | eq
      · rw [eq] at run
        obtain ⟨found, member, inside⟩ := ih run mentioned
        exact ⟨found, List.mem_cons_of_mem _ member, inside⟩
      · rw [eq] at run
        cases run
      · rw [eq] at run
        cases tail : settle step rest with
        | error contradiction => rw [tail] at run; cases run
        | ok others =>
            rw [tail] at run
            obtain rfl := Except.ok.inj run
            obtain ⟨found, member, inside⟩ := mentioned
            rcases List.mem_cons.mp member with rfl | inRest
            · exact ⟨condition, List.mem_cons_self, inside⟩
            · obtain ⟨source, sourceMember, sourceInside⟩ := ih tail ⟨found, inRest, inside⟩
              exact ⟨source, List.mem_cons_of_mem _ sourceMember, sourceInside⟩

/-- The condition of a contradiction is one of those settled, and the step makes it false. -/
theorem settle_contradiction {contradiction : Contradiction}
    (run : settle step conditions = .error contradiction) :
    contradiction.condition ∈ conditions ∧ step contradiction.condition = .bool false := by
  induction conditions with
  | nil => cases run
  | cons condition rest ih =>
      rcases settle_cons_cases step condition rest with
        ⟨decided, eq⟩ | ⟨decided, eq⟩ | eq
      · rw [eq] at run
        exact ⟨List.mem_cons_of_mem _ (ih run).1, (ih run).2⟩
      · rw [eq] at run
        obtain rfl := Except.error.inj run
        exact ⟨List.mem_cons_self, decided⟩
      · rw [eq] at run
        cases tail : settle step rest with
        | error found =>
            rw [tail] at run
            obtain rfl := Except.error.inj run
            exact ⟨List.mem_cons_of_mem _ (ih tail).1, (ih tail).2⟩
        | ok others => rw [tail] at run; cases run

end Settling

/-- Folding all conditions is a reduction that changes no valuation. -/
theorem settle_simplify_reduces {reading : Reading} (params : List String)
    {conditions settled : List Expr} (run : settle Expr.simplify conditions = .ok settled) :
    Reduces reading params conditions settled := by
  have same : ∀ values, AllHold reading values settled ↔ AllHold reading values conditions := by
    intro values
    rw [settle_holds run]
    simp only [Expr.holds_simplify]
    rfl
  refine ⟨fun values met => (same values).mpr met,
    fun values met => ⟨values, (same values).mp met, fun _ _ => rfl⟩, fun name mentioned => ?_⟩
  obtain ⟨condition, member, inside⟩ := settle_mentioned run mentioned
  exact ⟨condition, member, Expr.mentions_of_mentions_simplify inside⟩

/-! ## Eliminating -/

section Eliminating

variable {reading : Reading} {params : List String} {elimination : Elimination}

/-- A side is solved for if it is a variable that is no parameter and does not stand on the other
side. -/
theorem solvedFor?_eq_some {side other : Expr}
    (solved : solvedFor? params side other = some elimination) :
    side = .var elimination.name ∧ other = elimination.value ∧ elimination.name ∉ params ∧
      elimination.value.mentions elimination.name = false := by
  unfold solvedFor? at solved
  split at solved
  · rename_i name
    split at solved
    · cases solved
    · rename_i allowed
      obtain rfl := Option.some.inj solved
      simp only [not_or, Bool.not_eq_true] at allowed
      exact ⟨rfl, rfl, allowed.1, allowed.2⟩
  · cases solved

/-- An elimination replaces a variable that is not a parameter by an expression without it, and
the condition that allows it says that the two are equal. -/
theorem elimination?_eq_some (reading : Reading) {condition : Expr}
    (allowed : elimination? params condition = some elimination) :
    elimination.name ∉ params ∧ elimination.value.mentions elimination.name = false ∧
      (∀ values, condition.Holds reading values ↔
        values elimination.name = elimination.value.value reading values) ∧
      (∀ name, elimination.value.mentions name = true → condition.mentions name = true) := by
  unfold elimination? at allowed
  split at allowed
  · rename_i left right
    rcases Option.or_eq_some_iff.mp allowed with fromLeft | ⟨_, fromRight⟩
    · obtain ⟨rfl, rfl, notParam, absent⟩ := solvedFor?_eq_some fromLeft
      refine ⟨notParam, absent, fun values => holds_eq, ?_⟩
      intro name inside
      simp [Expr.mentions, inside]
    · obtain ⟨rfl, rfl, notParam, absent⟩ := solvedFor?_eq_some fromRight
      refine ⟨notParam, absent, fun values => holds_eq.trans eq_comm, ?_⟩
      intro name inside
      simp [Expr.mentions, inside]
  · cases allowed

/-- Extraction takes out one condition, which allows the elimination, and keeps the others. -/
theorem extract?_eq_some {conditions rest : List Expr}
    (extracted : extract? params conditions = some (elimination, rest)) :
    ∃ condition, elimination? params condition = some elimination ∧
      conditions.Perm (condition :: rest) := by
  induction conditions generalizing rest with
  | nil => cases extracted
  | cons condition others ih =>
      unfold extract? at extracted
      split at extracted
      · rename_i found allowed
        obtain ⟨rfl, rfl⟩ := Prod.mk.inj (Option.some.inj extracted)
        exact ⟨condition, allowed, .refl _⟩
      · obtain ⟨⟨found, remaining⟩, later, same⟩ := Option.map_eq_some_iff.mp extracted
        obtain ⟨rfl, rfl⟩ := Prod.mk.inj same
        obtain ⟨equation, allowed, perm⟩ := ih later
        exact ⟨equation, allowed, (perm.cons condition).trans (.swap ..)⟩

/-- Conditions are all met in whatever order they stand. -/
theorem allHold_perm {conditions others : List Expr} (perm : conditions.Perm others)
    {values : Valuation} : AllHold reading values conditions ↔ AllHold reading values others :=
  forall_congr' fun _ => by rw [perm.mem_iff]

/-- The eliminated variable takes the value of its replacement, the others keep theirs. -/
theorem under_bindings (values : Valuation) : values.under reading elimination.bindings =
    Function.update values elimination.name (elimination.value.value reading values) := by
  funext name
  by_cases same : name = elimination.name
  · subst same
    simp [Valuation.under, Elimination.bindings, Bindings.get?_insert]
  · simp [Valuation.under, Elimination.bindings, Bindings.get?_insert, same]

private theorem holds_apply (condition : Expr) (values : Valuation) :
    (elimination.apply condition).Holds reading values ↔ condition.Holds reading
      (Function.update values elimination.name (elimination.value.value reading values)) := by
  rw [Elimination.apply, Expr.holds_simplify, Expr.holds_substitute, under_bindings]

/-- Carrying out an elimination removes its variable, and brings in variables of its value
only. -/
theorem mentions_apply (absent : elimination.value.mentions elimination.name = false)
    {condition : Expr} {name : String}
    (mentioned : (elimination.apply condition).mentions name = true) :
    name ≠ elimination.name ∧
      (condition.mentions name = true ∨ elimination.value.mentions name = true) := by
  rcases Expr.mentions_substitute (Expr.mentions_of_mentions_simplify mentioned) with
    ⟨inside, free⟩ | ⟨other, replacement, inside, bound, inValue⟩
  · refine ⟨?_, .inl inside⟩
    rintro rfl
    simp [Elimination.bindings, Bindings.get?_insert] at free
  · have same : elimination.value = replacement := by
      rw [Elimination.bindings, Bindings.get?_insert] at bound
      split at bound
      · exact Option.some.inj bound
      · cases bound
    subst same
    refine ⟨?_, .inr inValue⟩
    rintro rfl
    rw [absent] at inValue
    cases inValue

/-- A round of elimination leaves nothing of its variable. -/
theorem not_mentioned_of_settle_apply {rest settled : List Expr}
    (absent : elimination.value.mentions elimination.name = false)
    (run : settle elimination.apply rest = .ok settled) : ¬ Mentioned elimination.name settled := by
  intro mentioned
  obtain ⟨source, _, inside⟩ := settle_mentioned run mentioned
  exact (mentions_apply absent inside).1 rfl

/-- Where the equation behind an elimination holds, carrying it out changes nothing. -/
theorem holds_apply_of_valued {values : Valuation}
    (valued : values elimination.name = elimination.value.value reading values)
    (condition : Expr) :
    (elimination.apply condition).Holds reading values ↔ condition.Holds reading values := by
  rw [holds_apply, ← valued, Function.update_eq_self]

/-- One round of elimination is a reduction: the eliminated variable gets back the value that the
equation gave it. -/
theorem settle_apply_reduces {conditions rest settled : List Expr}
    (extracted : extract? params conditions = some (elimination, rest))
    (run : settle elimination.apply rest = .ok settled) :
    Reduces reading params conditions settled := by
  obtain ⟨condition, allowed, perm⟩ := extract?_eq_some extracted
  obtain ⟨notParam, absent, equation, inValue⟩ := elimination?_eq_some reading allowed
  have gone := not_mentioned_of_settle_apply absent run
  refine ⟨fun values met => ?_, fun values met => ?_, fun name mentioned => ?_⟩
  · obtain ⟨equationMet, othersMet⟩ := allHold_cons.mp ((allHold_perm perm).mp met)
    rw [settle_holds run]
    intro source member
    exact (holds_apply_of_valued ((equation values).mp equationMet) source).mpr
      (othersMet source member)
  · let restored := Function.update values elimination.name
      (elimination.value.value reading values)
    have sameValue : elimination.value.value reading restored =
        elimination.value.value reading values := by
      apply Expr.value_congr
      intro name inside
      apply Function.update_of_ne
      rintro rfl
      rw [absent] at inside
      cases inside
    have equationMet : condition.Holds reading restored := by
      rw [equation, sameValue]
      exact Function.update_self ..
    have othersMet : AllHold reading restored rest := fun source member =>
      (holds_apply source values).mp ((settle_holds run values).mp met source member)
    refine ⟨restored, (allHold_perm perm).mpr (allHold_cons.mpr ⟨equationMet, othersMet⟩),
      fun name fixed => ?_⟩
    apply Function.update_of_ne
    rintro rfl
    exact fixed.elim notParam gone
  · obtain ⟨source, member, inside⟩ := settle_mentioned run mentioned
    rcases (mentions_apply absent inside).2 with inSource | inReplacement
    · exact ⟨source, perm.mem_iff.mpr (List.mem_cons_of_mem _ member), inSource⟩
    · exact ⟨condition, perm.mem_iff.mpr List.mem_cons_self, inValue name inReplacement⟩

/-- A contradiction in a round of elimination shows that nothing meets the conditions. -/
theorem settle_apply_contradiction {conditions rest : List Expr} {contradiction : Contradiction}
    (extracted : extract? params conditions = some (elimination, rest))
    (run : settle elimination.apply rest = .error contradiction) (values : Valuation) :
    ¬ AllHold reading values conditions := by
  intro met
  obtain ⟨condition, allowed, perm⟩ := extract?_eq_some extracted
  obtain ⟨_, _, equation, _⟩ := elimination?_eq_some reading allowed
  obtain ⟨equationMet, othersMet⟩ := allHold_cons.mp ((allHold_perm perm).mp met)
  obtain ⟨member, falsified⟩ := settle_contradiction run
  have holds := (holds_apply_of_valued ((equation values).mp equationMet) _).mpr
    (othersMet _ member)
  rw [falsified] at holds
  simp at holds

/-- Any number of rounds is a reduction. -/
theorem eliminate_reduces {rounds : Nat} {conditions solved : List Expr}
    (run : eliminate params rounds conditions = .ok solved) :
    Reduces reading params conditions solved := by
  induction rounds generalizing conditions with
  | zero =>
      obtain rfl := Except.ok.inj run
      exact .refl _
  | succ rounds ih =>
      unfold eliminate at run
      split at run
      · obtain rfl := Except.ok.inj run
        exact .refl _
      · rename_i elimination rest extracted
        cases round : settle elimination.apply rest with
        | error contradiction => rw [round] at run; cases run
        | ok settled =>
            rw [round] at run
            exact (settle_apply_reduces extracted round).trans (ih run)

/-- A contradiction in any round shows that nothing meets the conditions. -/
theorem eliminate_contradiction {rounds : Nat} {conditions : List Expr}
    {contradiction : Contradiction} (run : eliminate params rounds conditions = .error contradiction)
    (values : Valuation) : ¬ AllHold reading values conditions := by
  induction rounds generalizing conditions with
  | zero => cases run
  | succ rounds ih =>
      unfold eliminate at run
      split at run
      · cases run
      · rename_i elimination rest extracted
        cases round : settle elimination.apply rest with
        | error found => exact settle_apply_contradiction extracted round values
        | ok settled =>
            rw [round] at run
            exact fun met => ih run
              ((settle_apply_reduces extracted round).keeps values met)

/-- Solving is a reduction. -/
theorem solve_reduces {conditions solved : List Expr}
    (run : solve params conditions = .ok solved) : Reduces reading params conditions solved := by
  unfold solve at run
  cases folded : settle Expr.simplify conditions with
  | error contradiction => rw [folded] at run; cases run
  | ok simplified =>
      rw [folded] at run
      exact (settle_simplify_reduces params folded).trans (eliminate_reduces run)

/-- Solving stops at a contradiction only if nothing meets the conditions. -/
theorem solve_contradiction {conditions : List Expr} {contradiction : Contradiction}
    (run : solve params conditions = .error contradiction) (values : Valuation) :
    ¬ AllHold reading values conditions := by
  unfold solve at run
  cases folded : settle Expr.simplify conditions with
  | error found =>
      intro met
      obtain ⟨member, falsified⟩ := settle_contradiction folded
      have holds := (Expr.holds_simplify _).mpr (met _ member)
      rw [falsified] at holds
      simp at holds
  | ok simplified =>
      rw [folded] at run
      exact fun met => eliminate_contradiction run values
        ((settle_simplify_reduces params folded).keeps values met)

end Eliminating

/-- **Solving keeps the meaning of the conditions.**  What meets the conditions meets the solved
form; what meets the solved form can be changed, on variables that are neither parameters nor left
in it, so that it meets the conditions; and a contradiction means that nothing meets them. -/
theorem solve_preserves_meaning (reading : Reading) (params : List String)
    (conditions : List Expr) :
    match solve params conditions with
    | .ok solved =>
      (∀ values, AllHold reading values conditions → AllHold reading values solved) ∧
      ∀ values, AllHold reading values solved → ∃ changed,
        AllHold reading changed conditions ∧
          ∀ name, name ∈ params ∨ Mentioned name solved → changed name = values name
    | .error _ => ∀ values, ¬ AllHold reading values conditions := by
  cases run : solve params conditions with
  | ok solved => exact ⟨(solve_reduces run).keeps, (solve_reduces run).restores⟩
  | error contradiction => exact solve_contradiction run

end Static

end CircuitWidths
