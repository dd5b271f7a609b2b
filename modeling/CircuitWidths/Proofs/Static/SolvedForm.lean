import CircuitWidths.Proofs.Static.Folding

/-!
# The solved form

Solving is a sequence of rounds, each of which carries out one elimination (`Rounds`), and it stops
only when nothing is left to eliminate (`solve_eq_ok_iff`).  After every round all conditions are
folded and none of them is a truth value (`Settled`), and the eliminated variable is gone for good,
since later rounds bring in no variable.  So the solved form is a fixed point of solving.
-/

namespace CircuitWidths

namespace Static

variable {params : List String} {conditions rest settled solved : List Expr}
  {elimination : Elimination} {eliminations : List Elimination}

/-! ## Settled conditions -/

/-- All conditions are folded, and none of them is decided. -/
def Settled (conditions : List Expr) : Prop :=
  ∀ condition ∈ conditions, condition.Folded ∧ ∀ truth, condition ≠ .bool truth

/-- What is settled comes from a condition by the step, and is not decided. -/
theorem exists_of_mem_settle {step : Expr → Expr} (run : settle step conditions = .ok settled)
    {condition : Expr} (member : condition ∈ settled) :
    (∃ source ∈ conditions, condition = step source) ∧ ∀ truth, condition ≠ .bool truth := by
  induction conditions generalizing settled with
  | nil =>
      obtain rfl := Except.ok.inj run
      cases member
  | cons first others ih =>
      rw [settle] at run
      split at run
      · obtain ⟨⟨source, inside, stepped⟩, undecided⟩ := ih run member
        exact ⟨⟨source, List.mem_cons_of_mem _ inside, stepped⟩, undecided⟩
      · cases run
      · rename_i notTrue notFalse
        cases tail : settle step others with
        | error contradiction =>
            rw [tail] at run
            cases run
        | ok remaining =>
            rw [tail] at run
            obtain rfl := Except.ok.inj run
            rcases List.mem_cons.mp member with rfl | later
            · refine ⟨⟨first, List.mem_cons_self, rfl⟩, fun truth decided => ?_⟩
              cases truth with
              | true => exact notTrue decided
              | false => exact notFalse decided
            · obtain ⟨⟨source, inside, stepped⟩, undecided⟩ := ih tail later
              exact ⟨⟨source, List.mem_cons_of_mem _ inside, stepped⟩, undecided⟩

private theorem settled_of_settle {step : Expr → Expr}
    (folds : ∀ condition, (step condition).Folded) (run : settle step conditions = .ok settled) :
    Settled settled := by
  intro condition member
  obtain ⟨⟨source, _, rfl⟩, undecided⟩ := exists_of_mem_settle run member
  exact ⟨folds source, undecided⟩

/-- Settling takes conditions away only. -/
theorem length_settle_le {step : Expr → Expr} (run : settle step conditions = .ok settled) :
    settled.length ≤ conditions.length := by
  induction conditions generalizing settled with
  | nil =>
      obtain rfl := Except.ok.inj run
      exact Nat.le_refl _
  | cons condition others ih =>
      rcases settle_cons_cases step condition others with ⟨_, eq⟩ | ⟨_, eq⟩ | eq
      · rw [eq] at run
        exact Nat.le_succ_of_le (ih run)
      · rw [eq] at run
        cases run
      · rw [eq] at run
        cases tail : settle step others with
        | error contradiction =>
            rw [tail] at run
            cases run
        | ok remaining =>
            rw [tail] at run
            obtain rfl := Except.ok.inj run
            exact Nat.succ_le_succ (ih tail)

/-- Settled conditions stay as they are when they are folded again. -/
theorem Settled.settle_eq (isSettled : Settled conditions) :
    settle Expr.simplify conditions = .ok conditions := by
  induction conditions with
  | nil => rfl
  | cons condition others ih =>
      obtain ⟨⟨folded, undecided⟩, othersSettled⟩ := List.forall_mem_cons.mp isSettled
      rcases settle_cons_cases Expr.simplify condition others with
        ⟨decided, _⟩ | ⟨decided, _⟩ | eq
      · exact absurd (folded.simplify_eq.symm.trans decided) (undecided true)
      · exact absurd (folded.simplify_eq.symm.trans decided) (undecided false)
      · rw [eq, ih othersSettled, folded.simplify_eq]
        rfl

/-! ## Rounds -/

/-- Nothing is extracted exactly if no condition allows an elimination. -/
theorem extract?_eq_none_iff : extract? params conditions = none ↔
    ∀ condition ∈ conditions, elimination? params condition = none := by
  induction conditions with
  | nil => simp [extract?]
  | cons condition others ih =>
      rw [extract?, List.forall_mem_cons, ← ih]
      cases elimination? params condition with
      | none => simp
      | some elimination => simp

private theorem length_of_extract?
    (extracted : extract? params conditions = some (elimination, rest)) :
    conditions.length = rest.length + 1 := by
  obtain ⟨condition, _, perm⟩ := extract?_eq_some extracted
  exact perm.length_eq

/-- The eliminations are carried out one after another, until nothing is left to eliminate. -/
inductive Rounds (params : List String) : List Expr → List Elimination → List Expr → Prop
  | done {conditions : List Expr} (stuck : extract? params conditions = none) :
      Rounds params conditions [] conditions
  | round {conditions rest settled solved : List Expr} {elimination : Elimination}
      {eliminations : List Elimination}
      (extracted : extract? params conditions = some (elimination, rest))
      (carriedOut : settle elimination.apply rest = .ok settled)
      (others : Rounds params settled eliminations solved) :
      Rounds params conditions (elimination :: eliminations) solved

/-- The conditions are folded and then solved by the eliminations. -/
def SolvedBy (params : List String) (conditions : List Expr) (eliminations : List Elimination)
    (solved : List Expr) : Prop :=
  ∃ simplified, settle Expr.simplify conditions = .ok simplified ∧
    Rounds params simplified eliminations solved

namespace Rounds

private theorem stuck (rounds : Rounds params conditions eliminations solved) :
    extract? params solved = none := by
  induction rounds with
  | done stuck => exact stuck
  | round _ _ _ ih => exact ih

private theorem isSettled (rounds : Rounds params conditions eliminations solved)
    (before : Settled conditions) : Settled solved := by
  induction rounds with
  | done _ => exact before
  | round _ carriedOut _ ih =>
      exact ih (settled_of_settle (fun _ => Expr.folded_simplify _) carriedOut)

/-- No round brings in a variable. -/
theorem narrows (rounds : Rounds params conditions eliminations solved) {name : String}
    (mentioned : Mentioned name solved) : Mentioned name conditions := by
  induction rounds with
  | done _ => exact mentioned
  | @round conditions rest settled _ elimination _ extracted carriedOut _ ih =>
      have reduces : Reduces ⟨fun _ => 0, fun _ _ => 0⟩ params conditions settled :=
        settle_apply_reduces extracted carriedOut
      exact reduces.narrows name (ih mentioned)

/-- An eliminated variable is gone after its round, and no later round brings it back. -/
theorem eliminated_absent (rounds : Rounds params conditions eliminations solved) :
    ∀ elimination ∈ eliminations, ¬ Mentioned elimination.name solved := by
  induction rounds with
  | done _ => simp
  | @round conditions rest settled solved elimination eliminations extracted carriedOut others ih =>
      obtain ⟨condition, allowed, _⟩ := extract?_eq_some extracted
      obtain ⟨_, absent, _, _⟩ := elimination?_eq_some ⟨fun _ => 0, fun _ _ => 0⟩ allowed
      have gone := not_mentioned_of_settle_apply absent carriedOut
      exact List.forall_mem_cons.mpr ⟨fun mentioned => gone (others.narrows mentioned), ih⟩

/-- As many rounds as there are conditions are enough. -/
theorem eliminate_eq (rounds : Rounds params conditions eliminations solved) {limit : Nat}
    (enough : conditions.length ≤ limit) : eliminate params limit conditions = .ok solved := by
  induction rounds generalizing limit with
  | done stuck =>
      cases limit with
      | zero => rfl
      | succ limit => rw [eliminate, stuck]
  | @round conditions rest settled _ elimination _ extracted carriedOut _ ih =>
      have shorter := length_of_extract? extracted
      have notLonger := length_settle_le carriedOut
      obtain ⟨remaining, rfl⟩ : ∃ remaining, limit = remaining + 1 := ⟨limit - 1, by omega⟩
      rw [eliminate, extracted]
      dsimp only
      rw [carriedOut]
      exact ih (by omega)

end Rounds

/-- Eliminating stops because nothing is left to eliminate, and not because its rounds are used
up. -/
theorem exists_rounds {limit : Nat} (enough : conditions.length ≤ limit)
    (run : eliminate params limit conditions = .ok solved) :
    ∃ eliminations, Rounds params conditions eliminations solved := by
  induction limit generalizing conditions with
  | zero =>
      obtain rfl := List.length_eq_zero_iff.mp (Nat.le_zero.mp enough)
      obtain rfl := Except.ok.inj run
      exact ⟨[], .done rfl⟩
  | succ limit ih =>
      rw [eliminate] at run
      cases extraction : extract? params conditions with
      | none =>
          rw [extraction] at run
          obtain rfl := Except.ok.inj run
          exact ⟨[], .done extraction⟩
      | some extracted =>
          obtain ⟨elimination, rest⟩ := extracted
          rw [extraction] at run
          dsimp only at run
          cases round : settle elimination.apply rest with
          | error contradiction =>
              rw [round] at run
              cases run
          | ok settled =>
              rw [round] at run
              have shorter := length_of_extract? extraction
              have notLonger := length_settle_le round
              obtain ⟨eliminations, rounds⟩ := ih (by omega) run
              exact ⟨elimination :: eliminations, .round extraction round rounds⟩

/-- More rounds than conditions change nothing, also where a contradiction is found. -/
theorem eliminate_more_rounds (params : List String) {limit : Nat} (extra : Nat)
    (enough : conditions.length ≤ limit) :
    eliminate params (limit + extra) conditions = eliminate params limit conditions := by
  induction limit generalizing conditions with
  | zero =>
      obtain rfl := List.length_eq_zero_iff.mp (Nat.le_zero.mp enough)
      cases extra with
      | zero => rfl
      | succ extra => rfl
  | succ limit ih =>
      rw [Nat.succ_add, eliminate, eliminate]
      cases extraction : extract? params conditions with
      | none => rfl
      | some extracted =>
          obtain ⟨elimination, rest⟩ := extracted
          dsimp only
          cases round : settle elimination.apply rest with
          | error contradiction => rfl
          | ok settled =>
              have shorter := length_of_extract? extraction
              have notLonger := length_settle_le round
              have fewer : settled.length ≤ limit := by omega
              exact ih fewer

private theorem solve_eq_ok_iff : solve params conditions = .ok solved ↔
    ∃ eliminations, SolvedBy params conditions eliminations solved := by
  constructor
  · intro run
    unfold solve at run
    cases folding : settle Expr.simplify conditions with
    | error contradiction =>
        rw [folding] at run
        cases run
    | ok simplified =>
        rw [folding] at run
        obtain ⟨eliminations, rounds⟩ := exists_rounds (Nat.le_refl _) run
        exact ⟨eliminations, simplified, folding, rounds⟩
  · intro solvable
    obtain ⟨eliminations, simplified, folding, rounds⟩ := solvable
    unfold solve
    rw [folding]
    exact rounds.eliminate_eq (Nat.le_refl _)

/-! ## The fixed point -/

/-- Where no elimination is allowed, a variable that is not a parameter and stands alone on one side
of an equation stands on the other side too. -/
theorem mentions_of_solvedFor?_eq_none {other : Expr} {name : String}
    (refused : solvedFor? params (.var name) other = none) (internal : name ∉ params) :
    other.mentions name = true := by
  rw [solvedFor?] at refused
  split at refused
  · rename_i reason
    exact reason.resolve_left internal
  · cases refused

private theorem SolvedBy.settled_stuck (solvedBy : SolvedBy params conditions eliminations solved) :
    Settled solved ∧ extract? params solved = none := by
  obtain ⟨simplified, folding, rounds⟩ := solvedBy
  exact ⟨rounds.isSettled (settled_of_settle Expr.folded_simplify folding), rounds.stuck⟩

/-- Settled conditions that allow no elimination are solved already. -/
theorem Settled.solve_eq (isSettled : Settled conditions)
    (stuck : extract? params conditions = none) : solve params conditions = .ok conditions :=
  solve_eq_ok_iff.mpr ⟨[], conditions, isSettled.settle_eq, .done stuck⟩

/-- **Solving gives a fixed point.**  Simplifying changes no condition of the solved form, and none
is a truth value.  A variable that is not a parameter and stands alone on one side of an equation also
stands on the other side.  Solving went through a sequence of eliminations, whose variables do not
stand in the solved form any more, and it has brought in no variable.  Solving again changes
nothing. -/
theorem solve_fixedPoint (run : solve params conditions = .ok solved) :
    (∀ condition ∈ solved, condition.simplify = condition ∧ ∀ truth, condition ≠ .bool truth) ∧
    (∀ left right, .binary .eq left right ∈ solved → ∀ name, name ∉ params →
      (left = .var name → right.mentions name = true) ∧
        (right = .var name → left.mentions name = true)) ∧
    (∃ eliminations, SolvedBy params conditions eliminations solved) ∧
    (∀ eliminations, SolvedBy params conditions eliminations solved →
      ∀ elimination ∈ eliminations, ¬ Mentioned elimination.name solved) ∧
    (∀ name, Mentioned name solved → Mentioned name conditions) ∧
    solve params solved = .ok solved := by
  obtain ⟨eliminations, solvedBy⟩ := solve_eq_ok_iff.mp run
  obtain ⟨isSettled, stuck⟩ := solvedBy.settled_stuck
  have reduces : Reduces ⟨fun _ => 0, fun _ _ => 0⟩ params conditions solved := solve_reduces run
  refine ⟨?_, ?_, ⟨eliminations, solvedBy⟩, ?_, reduces.narrows, isSettled.solve_eq stuck⟩
  · intro condition member
    obtain ⟨folded, undecided⟩ := isSettled condition member
    exact ⟨folded.simplify_eq, undecided⟩
  · intro left right member name internal
    obtain ⟨leftRefused, rightRefused⟩ :=
      Option.or_eq_none_iff.mp (extract?_eq_none_iff.mp stuck _ member)
    constructor
    · intro alone
      subst alone
      exact mentions_of_solvedFor?_eq_none leftRefused internal
    · intro alone
      subst alone
      exact mentions_of_solvedFor?_eq_none rightRefused internal
  · intro others othersSolve
    obtain ⟨_, _, rounds⟩ := othersSolve
    exact rounds.eliminated_absent

/-- Two widths in a chain, and two conditions on a parameter. -/
def chainConditions : List Expr :=
  [.binary .eq (.var "$w0") (.var "$w1"), .binary .eq (.var "$w1") (.int 8),
    .binary .le (.int 3) (.binary .add (.var "$w0") (.var "n")),
    .binary .eq (.binary .mul (.int 2) (.var "n")) (.int 4)]

/-- What is left of the chain is about the parameter only. -/
def chainSolved : List Expr :=
  [.binary .le (.int 3) (.binary .add (.int 8) (.var "n")),
    .binary .eq (.binary .mul (.int 2) (.var "n")) (.int 4)]

/-- The chain is solved by two eliminations, whose variables are gone. -/
theorem solve_fixedPoint_chain :
    solve ["n"] chainConditions = .ok chainSolved ∧
      SolvedBy ["n"] chainConditions [⟨"$w0", .var "$w1"⟩, ⟨"$w1", .int 8⟩] chainSolved ∧
      ¬ Mentioned "$w0" chainSolved ∧ ¬ Mentioned "$w1" chainSolved ∧
      solve ["n"] chainSolved = .ok chainSolved := by
  have run : solve ["n"] chainConditions = .ok chainSolved := by decide +kernel
  have solvedBy : SolvedBy ["n"] chainConditions [⟨"$w0", .var "$w1"⟩, ⟨"$w1", .int 8⟩]
      chainSolved :=
    ⟨chainConditions, by decide +kernel,
      .round rfl rfl (.round rfl rfl (.done (by decide +kernel)))⟩
  obtain ⟨_, _, _, gone, _, again⟩ := solve_fixedPoint run
  exact ⟨run, solvedBy, gone _ solvedBy _ List.mem_cons_self,
    gone _ solvedBy _ (List.mem_cons_of_mem _ List.mem_cons_self), again⟩

end Static

end CircuitWidths
