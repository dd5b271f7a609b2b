import CircuitWidths.Static.Fold
import Mathlib.Logic.Function.Basic

/-!
# The meaning of static expressions

A valuation gives every static variable an integer, and with it every static expression has a
value.  Truth values are read as one and zero, so a condition holds when its value is not zero.
Arithmetic leaves two operations open, division by zero and negative powers; a reading says what
they give, and every statement is made for all readings.

Replacing variables is the same as changing the valuation (`Expr.value_substitute`), folding keeps
the value (`Expr.value_simplify`), and neither brings in a variable that was not there.
-/

namespace CircuitWidths

namespace Static

/-- What division by zero and negative powers give. -/
structure Reading where
  divByZero : Int → Int
  negativePower : Int → Int → Int

/-- The value of every static variable. -/
abbrev Valuation := String → Int

/-- The value of an operation on two integers; comparisons give one or zero. -/
def Op.value (reading : Reading) : Op → Int → Int → Int
  | .add, left, right => left + right
  | .sub, left, right => left - right
  | .mul, left, right => left * right
  | .div, left, right => if right = 0 then reading.divByZero left else left.tdiv right
  | .pow, left, right =>
    if right < 0 then reading.negativePower left right else left.pow right.toNat
  | .eq, left, right => if left = right then 1 else 0
  | .lt, left, right => if left < right then 1 else 0
  | .le, left, right => if left ≤ right then 1 else 0
  | .gt, left, right => if right < left then 1 else 0
  | .ge, left, right => if right ≤ left then 1 else 0

namespace Expr

/-- The value of an expression. -/
def value (reading : Reading) (values : Valuation) : Expr → Int
  | .int value => value
  | .bool value => if value then 1 else 0
  | .var name => values name
  | .binary op left right => op.value reading (left.value reading values)
      (right.value reading values)

/-- The condition is met. -/
def Holds (reading : Reading) (values : Valuation) (condition : Expr) : Prop :=
  condition.value reading values ≠ 0

instance (reading : Reading) (values : Valuation) (condition : Expr) :
    Decidable (condition.Holds reading values) :=
  inferInstanceAs (Decidable (_ ≠ _))

end Expr

/-- All conditions are met. -/
def AllHold (reading : Reading) (values : Valuation) (conditions : List Expr) : Prop :=
  ∀ condition ∈ conditions, condition.Holds reading values

instance (reading : Reading) (values : Valuation) (conditions : List Expr) :
    Decidable (AllHold reading values conditions) :=
  inferInstanceAs (Decidable (∀ condition ∈ conditions, _))

/-- The valuation in which every bound variable has the value of the expression that it is bound
to. -/
def Valuation.under (reading : Reading) (values : Valuation) (bindings : Bindings Expr) :
    Valuation := fun name =>
  match bindings.get? name with
  | some replacement => replacement.value reading values
  | none => values name

variable {reading : Reading} {values : Valuation}

section Conditions

variable {left right : Expr}

@[simp] theorem holds_bool {value : Bool} :
    (Expr.bool value).Holds reading values ↔ value = true := by
  cases value <;> simp [Expr.Holds, Expr.value]

@[simp] theorem holds_eq : (Expr.binary .eq left right).Holds reading values ↔
    left.value reading values = right.value reading values := by
  simp [Expr.Holds, Expr.value, Op.value]

@[simp] theorem holds_le : (Expr.binary .le left right).Holds reading values ↔
    left.value reading values ≤ right.value reading values := by
  simp [Expr.Holds, Expr.value, Op.value]

@[simp] theorem holds_lt : (Expr.binary .lt left right).Holds reading values ↔
    left.value reading values < right.value reading values := by
  simp [Expr.Holds, Expr.value, Op.value]

end Conditions

section Lists

variable {condition : Expr} {conditions others : List Expr}

@[simp] theorem allHold_nil : AllHold reading values [] := by
  intro condition member
  cases member

@[simp] theorem allHold_cons : AllHold reading values (condition :: conditions) ↔
    condition.Holds reading values ∧ AllHold reading values conditions := by
  simp [AllHold]

@[simp] theorem allHold_append : AllHold reading values (conditions ++ others) ↔
    AllHold reading values conditions ∧ AllHold reading values others := by
  simp [AllHold, or_imp, forall_and]

end Lists

namespace Expr

/-! ## Replacing variables -/

/-- Replacing variables gives the value that the expression has where the variables have the
values of their replacements. -/
@[simp] theorem value_substitute (bindings : Bindings Expr) (expr : Expr) :
    (expr.substitute bindings).value reading values =
      expr.value reading (values.under reading bindings) := by
  induction expr with
  | int value => rfl
  | bool value => rfl
  | var name =>
      simp only [substitute, value, Valuation.under]
      cases bindings.get? name with
      | none => rfl
      | some replacement => rfl
  | binary op left right ihLeft ihRight => simp only [substitute, value, ihLeft, ihRight]

/-- Only the variables that stand in an expression matter for its value. -/
theorem value_congr {values others : Valuation} {expr : Expr}
    (agree : ∀ name, expr.mentions name = true → values name = others name) :
    expr.value reading values = expr.value reading others := by
  induction expr with
  | int value => rfl
  | bool value => rfl
  | var name => exact agree name (by simp [mentions])
  | binary op left right ihLeft ihRight =>
      have sameLeft := ihLeft fun name mentioned => agree name (by simp [mentions, mentioned])
      have sameRight := ihRight fun name mentioned => agree name (by simp [mentions, mentioned])
      simp only [value, sameLeft, sameRight]

/-- A variable of the result was not replaced, or stands in a replacement. -/
theorem mentions_substitute {bindings : Bindings Expr} {name : String} {expr : Expr}
    (mentioned : (expr.substitute bindings).mentions name = true) :
    (expr.mentions name = true ∧ bindings.get? name = none) ∨
      ∃ other replacement, expr.mentions other = true ∧
        bindings.get? other = some replacement ∧ replacement.mentions name = true := by
  induction expr with
  | int value => simp [substitute, mentions] at mentioned
  | bool value => simp [substitute, mentions] at mentioned
  | var other =>
      cases bound : bindings.get? other with
      | none =>
          simp only [substitute, bound, Option.getD_none, mentions, beq_iff_eq] at mentioned
          subst mentioned
          exact .inl ⟨by simp [mentions], bound⟩
      | some replacement =>
          simp only [substitute, bound, Option.getD_some] at mentioned
          exact .inr ⟨other, replacement, by simp [mentions], bound, mentioned⟩
  | binary op left right ihLeft ihRight =>
      simp only [substitute, mentions, Bool.or_eq_true] at mentioned ⊢
      rcases mentioned with inLeft | inRight
      · rcases ihLeft inLeft with ⟨here, free⟩ | ⟨other, replacement, here, bound, inside⟩
        · exact .inl ⟨.inl here, free⟩
        · exact .inr ⟨other, replacement, .inl here, bound, inside⟩
      · rcases ihRight inRight with ⟨here, free⟩ | ⟨other, replacement, here, bound, inside⟩
        · exact .inl ⟨.inr here, free⟩
        · exact .inr ⟨other, replacement, .inr here, bound, inside⟩

end Expr

/-! ## Folding -/

private theorem power?_eq_some {base exponent result : Int}
    (computed : power? base exponent = some result) :
    0 ≤ exponent ∧ result = base.pow exponent.toNat := by
  unfold power? at computed
  split at computed
  · cases computed
  · rename_i inRange
    split at computed
    · cases computed
    · obtain rfl := Option.some.inj computed
      exact ⟨by omega, rfl⟩

/-- A computed literal is the value of the operation. -/
theorem Op.fold?_value {op : Op} {left right : Int} {folded : Expr}
    (computed : op.fold? left right = some folded) :
    folded.value reading values = op.value reading left right := by
  cases op with
  | add | sub | mul =>
      obtain rfl := Option.some.inj computed
      rfl
  | div =>
      simp only [Op.fold?] at computed
      split at computed
      · cases computed
      · rename_i nonzero
        obtain rfl := Option.some.inj computed
        simp [Expr.value, Op.value, nonzero]
  | pow =>
      obtain ⟨result, power, rfl⟩ := Option.map_eq_some_iff.mp computed
      obtain ⟨nonnegative, rfl⟩ := power?_eq_some power
      simp [Expr.value, Op.value, Int.not_lt.mpr nonnegative]
  | eq | lt | le | gt | ge =>
      obtain rfl := Option.some.inj computed
      simp [Expr.value, Op.value]

/-- A computed literal has no variables. -/
theorem Op.fold?_mentions {op : Op} {left right : Int} {folded : Expr}
    (computed : op.fold? left right = some folded) (name : String) :
    folded.mentions name = false := by
  cases op with
  | add | sub | mul | eq | lt | le | gt | ge =>
      obtain rfl := Option.some.inj computed
      rfl
  | div =>
      simp only [Op.fold?] at computed
      split at computed
      · cases computed
      · obtain rfl := Option.some.inj computed
        rfl
  | pow =>
      obtain ⟨result, power, rfl⟩ := Option.map_eq_some_iff.mp computed
      rfl

/-- The truth value of a comparison of equal sides is its value. -/
theorem Op.onSame?_value {op : Op} {truth : Bool} (decided : op.onSame? = some truth)
    (side : Int) : op.value reading side side = if truth then 1 else 0 := by
  cases op with
  | add | sub | mul | div | pow => cases decided
  | eq | lt | le | gt | ge =>
      obtain rfl := Option.some.inj decided
      simp [Op.value]

namespace Expr

/-- The two ways in which an operation on folded sides can end. -/
theorem foldBinary_cases (op : Op) (left right : Expr) :
    (∃ first second folded, left = .int first ∧ right = .int second ∧
      op.fold? first second = some folded ∧ foldBinary op left right = folded) ∨
    (∃ truth, left = right ∧ op.onSame? = some truth ∧
      foldBinary op left right = .bool truth) ∨
    foldBinary op left right = .binary op left right := by
  unfold foldBinary
  cases literals : foldLiterals? op left right with
  | some folded =>
      unfold foldLiterals? at literals
      split at literals
      · rename_i first second
        exact .inl ⟨first, second, folded, rfl, rfl, literals, rfl⟩
      · cases literals
  | none =>
      cases same : foldSame? op left right with
      | none => exact .inr (.inr rfl)
      | some folded =>
          unfold foldSame? at same
          split at same
          · rename_i equal
            obtain ⟨truth, decided, rfl⟩ := Option.map_eq_some_iff.mp same
            exact .inr (.inl ⟨truth, equal, decided, rfl⟩)
          · cases same

private theorem value_foldBinary (op : Op) (left right : Expr) :
    (foldBinary op left right).value reading values =
      op.value reading (left.value reading values) (right.value reading values) := by
  rcases foldBinary_cases op left right with
    ⟨first, second, folded, rfl, rfl, computed, result⟩ | ⟨truth, rfl, decided, result⟩ | result
  · rw [result]
    exact Op.fold?_value computed
  · rw [result, Op.onSame?_value decided]
    rfl
  · rw [result]
    rfl

/-- Folding keeps the value. -/
@[simp] theorem value_simplify (expr : Expr) :
    expr.simplify.value reading values = expr.value reading values := by
  induction expr with
  | int value => rfl
  | bool value => rfl
  | var name => rfl
  | binary op left right ihLeft ihRight =>
      rw [simplify, value_foldBinary, ihLeft, ihRight]
      rfl

/-- Folding brings in no variable. -/
theorem mentions_of_mentions_simplify {name : String} {expr : Expr}
    (mentioned : expr.simplify.mentions name = true) : expr.mentions name = true := by
  induction expr with
  | int value => exact mentioned
  | bool value => exact mentioned
  | var other => exact mentioned
  | binary op left right ihLeft ihRight =>
      rw [simplify] at mentioned
      rcases foldBinary_cases op left.simplify right.simplify with
        ⟨first, second, folded, -, -, computed, result⟩ | ⟨truth, -, -, result⟩ | result
      · rw [result, Op.fold?_mentions computed] at mentioned
        cases mentioned
      · rw [result] at mentioned
        cases mentioned
      · rw [result] at mentioned
        simp only [mentions, Bool.or_eq_true] at mentioned ⊢
        exact mentioned.imp ihLeft ihRight

/-- Folding does not change whether a condition is met. -/
@[simp] theorem holds_simplify (condition : Expr) :
    condition.simplify.Holds reading values ↔ condition.Holds reading values := by
  simp [Holds]

/-- A condition with replaced variables is met where the changed valuation meets it. -/
@[simp] theorem holds_substitute (bindings : Bindings Expr) (condition : Expr) :
    (condition.substitute bindings).Holds reading values ↔
      condition.Holds reading (values.under reading bindings) := by
  simp [Holds]

end Expr

end Static

end CircuitWidths
