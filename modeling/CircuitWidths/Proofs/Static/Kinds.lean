import CircuitWidths.Proofs.Check.Rules
import CircuitWidths.Proofs.Static.Solving

/-!
# Kinds of static expressions

Putting integers in place of parameters and folding keep the kind of an expression.  So solving
turns conditions into conditions: an equation that is solved for a variable gives it an integer.
-/

namespace CircuitWidths

namespace Static

namespace Expr

variable {expr left right : Expr} {kind : Kind} {op : Op}

instance : Decidable (expr.HasKind kind) :=
  match same : expr.kind with
  | .ok found => decidable_of_iff (found = kind) (by simp [HasKind, same])
  | .error _ => .isFalse (by simp [HasKind, same])

/-- Operations are on integers, and the operator says what they give. -/
theorem hasKind_binary : (binary op left right).HasKind kind ↔
    left.HasKind .int ∧ right.HasKind .int ∧ op.result = kind := by
  unfold HasKind
  rw [Expr.kind]
  cases leftKind : left.kind with
  | error mismatch => simp [bind, Except.bind]
  | ok first =>
      cases first with
      | bool => simp [bind, Except.bind, Kind.require]
      | int =>
          cases rightKind : right.kind with
          | error mismatch => simp [bind, Except.bind, Kind.require]
          | ok second =>
              cases second with
              | bool => simp [bind, Except.bind, Kind.require]
              | int => simp [bind, Except.bind, Kind.require]

theorem hasKind_int (value : Int) : (int value).HasKind .int := rfl

private theorem hasKind_bool (value : Bool) : (bool value).HasKind .bool := rfl

theorem hasKind_var (name : String) : (var name).HasKind .int := rfl

/-- Integers may take the place of parameters. -/
theorem HasKind.substitute {bindings : Bindings Expr} (hasKind : expr.HasKind kind)
    (bound : ∀ name value, bindings.get? name = some value → value.HasKind .int) :
    (expr.substitute bindings).HasKind kind := by
  induction expr generalizing kind with
  | int value => exact hasKind
  | bool value => exact hasKind
  | var name =>
      rw [Expr.substitute]
      cases found : bindings.get? name with
      | none => exact hasKind
      | some value =>
          cases hasKind
          exact bound name value found
  | binary op left right leftIh rightIh =>
      obtain ⟨leftKind, rightKind, result⟩ := hasKind_binary.mp hasKind
      exact hasKind_binary.mpr ⟨leftIh leftKind, rightIh rightKind, result⟩

/-- An integer may take the place of one parameter. -/
theorem HasKind.replace {name : String} {value : Expr} (hasKind : expr.HasKind kind)
    (isInt : value.HasKind .int) :
    (expr.substitute (Bindings.empty.insert name value)).HasKind kind := by
  apply hasKind.substitute
  intro other replacement bound
  rw [Bindings.get?_insert] at bound
  by_cases same : other = name
  · rw [if_pos same] at bound
    cases bound
    exact isInt
  · rw [if_neg same] at bound
    cases bound

/-- A computed operation has the kind that its operator gives. -/
theorem fold?_hasKind {first second : Int} {folded : Expr}
    (computed : op.fold? first second = some folded) : folded.HasKind op.result := by
  cases op with
  | add | sub | mul | eq | lt | le | gt | ge =>
      obtain rfl := Option.some.inj computed
      rfl
  | div =>
      simp only [Op.fold?] at computed
      split at computed
      · cases computed
      · obtain rfl := Option.some.inj computed
        rfl
  | pow =>
      obtain ⟨result, _, rfl⟩ := Option.map_eq_some_iff.mp computed
      rfl

/-- Only comparisons are decided when both sides are the same. -/
theorem result_of_onSame? {truth : Bool} (decided : op.onSame? = some truth) :
    op.result = .bool := by
  cases op with
  | eq | lt | le | gt | ge => rfl
  | add | sub | mul | div | pow => cases decided

/-- Simplification keeps the kind of an expression. -/
theorem HasKind.simplify (hasKind : expr.HasKind kind) : expr.simplify.HasKind kind := by
  induction expr generalizing kind with
  | int value => exact hasKind
  | bool value => exact hasKind
  | var name => exact hasKind
  | binary op left right leftIh rightIh =>
      obtain ⟨leftKind, rightKind, rfl⟩ := hasKind_binary.mp hasKind
      rw [Expr.simplify]
      rcases foldBinary_cases op left.simplify right.simplify with
        ⟨_, _, folded, _, _, computed, eq⟩ | ⟨truth, _, decided, eq⟩ | eq
      · rw [eq]
        exact fold?_hasKind computed
      · rw [eq, result_of_onSame? decided]
        exact hasKind_bool truth
      · rw [eq]
        exact hasKind_binary.mpr ⟨leftIh leftKind, rightIh rightKind, rfl⟩

/-- A condition that equates a parameter with something equates it with an integer. -/
theorem HasKind.equation {name : String} {value : Expr} (hasKind : expr.HasKind kind)
    (equation : expr.equation? = some (name, value)) : value.HasKind .int := by
  unfold equation? at equation
  split at equation
  · cases equation
    exact (hasKind_binary.mp hasKind).2.1
  · cases equation

end Expr

/-! ## Solving -/

variable {params : List String} {conditions settled solved : List Expr} {elimination : Elimination}

/-- All of the conditions are boolean. -/
def AllBoolean (conditions : List Expr) : Prop :=
  ∀ condition ∈ conditions, condition.HasKind .bool

private theorem settle_allBoolean {step : Expr → Expr}
    (keeps : ∀ condition : Expr, condition.HasKind .bool → (step condition).HasKind .bool)
    (boolean : AllBoolean conditions) (run : settle step conditions = .ok settled) :
    AllBoolean settled := by
  induction conditions generalizing settled with
  | nil =>
      obtain rfl := Except.ok.inj run
      exact boolean
  | cons condition rest ih =>
      obtain ⟨first, others⟩ := List.forall_mem_cons.mp boolean
      rcases settle_cons_cases step condition rest with ⟨_, eq⟩ | ⟨_, eq⟩ | eq
      · rw [eq] at run
        exact ih others run
      · rw [eq] at run
        cases run
      · rw [eq] at run
        cases tail : settle step rest with
        | error contradiction =>
            rw [tail] at run
            cases run
        | ok remaining =>
            rw [tail] at run
            obtain rfl := Except.ok.inj run
            exact List.forall_mem_cons.mpr ⟨keeps condition first, ih others tail⟩

/-- An equation that is solved for a variable gives it an integer. -/
theorem elimination?_hasKind {condition : Expr} (boolean : condition.HasKind .bool)
    (allowed : elimination? params condition = some elimination) :
    elimination.value.HasKind .int := by
  unfold elimination? at allowed
  split at allowed
  · obtain ⟨leftKind, rightKind, _⟩ := Expr.hasKind_binary.mp boolean
    rcases Option.or_eq_some_iff.mp allowed with fromLeft | ⟨_, fromRight⟩
    · obtain ⟨_, rfl, _⟩ := solvedFor?_eq_some fromLeft
      exact rightKind
    · obtain ⟨_, rfl, _⟩ := solvedFor?_eq_some fromRight
      exact leftKind
  · cases allowed

private theorem Elimination.apply_hasKind {condition : Expr} {kind : Kind}
    (value : elimination.value.HasKind .int) (hasKind : condition.HasKind kind) :
    (elimination.apply condition).HasKind kind := by
  apply Expr.HasKind.simplify
  exact hasKind.replace value

private theorem eliminate_allBoolean {rounds : Nat} (boolean : AllBoolean conditions)
    (run : eliminate params rounds conditions = .ok solved) : AllBoolean solved := by
  induction rounds generalizing conditions with
  | zero =>
      obtain rfl := Except.ok.inj run
      exact boolean
  | succ rounds ih =>
      unfold eliminate at run
      split at run
      · obtain rfl := Except.ok.inj run
        exact boolean
      · rename_i elimination rest extracted
        obtain ⟨equation, allowed, perm⟩ := extract?_eq_some extracted
        have equationKind := boolean equation (perm.mem_iff.mpr List.mem_cons_self)
        have restBoolean : AllBoolean rest := fun condition inside =>
          boolean condition (perm.mem_iff.mpr (List.mem_cons_of_mem _ inside))
        have value := elimination?_hasKind equationKind allowed
        cases round : settle elimination.apply rest with
        | error contradiction =>
            rw [round] at run
            cases run
        | ok settled =>
            rw [round] at run
            exact ih (settle_allBoolean (fun _ => elimination.apply_hasKind value) restBoolean
              round) run

/-- Solving conditions gives conditions. -/
theorem solve_allBoolean (boolean : AllBoolean conditions)
    (run : solve params conditions = .ok solved) : AllBoolean solved := by
  unfold solve at run
  cases folded : settle Expr.simplify conditions with
  | error contradiction =>
      rw [folded] at run
      cases run
  | ok simplified =>
      rw [folded] at run
      exact eliminate_allBoolean
        (settle_allBoolean (fun _ hasKind => hasKind.simplify) boolean folded) run

end Static

end CircuitWidths
