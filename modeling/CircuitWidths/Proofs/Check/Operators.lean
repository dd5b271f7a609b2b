import CircuitWidths.Check.Rule
import CircuitWidths.Proofs.Check.Rules

/-!
# The rules of operators

The rule of an operator is found in three steps: its static arguments have to be integers, as many
widths are generated as it needs, and the rule itself is a function of the generated widths
(`Rule.ofOperator_eq`).  The first two steps are the same for all operators.  So what checking does
with operators in general needs no look at the single ones, and what is particular to them is about
`Operator.rule`, in which nothing happens.
-/

namespace CircuitWidths

open CheckM Circuit

namespace Circuit.Operator

/-- The static expressions that are written in an operator. -/
def statics : Operator → List Static.Expr
  | .reg | .not | .gate _ | .mux | .concat => []
  | .select index => [index]
  | .slice first last => [first, last]
  | .rom addressSize wordSize | .ram addressSize wordSize => [addressSize, wordSize]

/-- The number of arguments of an operator. -/
def arity : Operator → Nat
  | .reg | .not | .select _ | .slice _ _ | .rom _ _ => 1
  | .gate _ | .concat => 2
  | .mux => 3
  | .ram _ _ => 4

/-- The number of widths that are generated for an operator. -/
def generated : Operator → Nat
  | .reg | .not | .gate _ | .mux | .rom _ _ | .ram _ _ => 0
  | .select _ | .slice _ _ => 1
  | .concat => 2

/-- The rule of an operator over its generated widths. -/
def rule (widths : Nat → Static.Expr) : Operator → Rule
  | .reg | .not => ⟨[.bit], .bit, []⟩
  | .gate _ => ⟨[.bit, .bit], .bit, []⟩
  | .mux => ⟨[.bit, .bit, .bit], .bit, []⟩
  | .select index => ⟨[.bits (widths 0)], .bit, [.binary .le index (widths 0)]⟩
  | .slice first last => ⟨[.bits (widths 0)], .bits (Rule.sliceWidth first last),
      [.binary .lt (.int 0) first, .binary .le last (widths 0)]⟩
  | .concat => ⟨[.bits (widths 0), .bits (widths 1)],
      .bits (.binary .add (widths 0) (widths 1)), []⟩
  | .rom addressSize wordSize => ⟨[.bits addressSize], .bits wordSize, []⟩
  | .ram addressSize wordSize =>
      ⟨[.bits addressSize, .bit, .bits addressSize, .bits wordSize], .bits wordSize, []⟩

end Circuit.Operator

/-- Generates so many widths.  Their names are numbered from the counter on. -/
def CheckM.generate (count : Nat) : CheckM (Nat → Static.Expr) := fun checker =>
  .ok (fun index => .var (checker.settings.widthStem ++ (checker.nextWidth + index).repr))
    { checker with nextWidth := checker.nextWidth + count }

/-- A single generated width. -/
theorem CheckM.freshWidth_eq : freshWidth = (do let widths ← generate 1; pure (widths 0)) := rfl

/-- The rule of an operator is found without a look at which operator it is. -/
theorem Rule.ofOperator_eq (span : Source.Span) (operator : Operator) :
    ofOperator span operator = (do
      operator.statics.forM fun static => expectKind span static .int
      let widths ← generate operator.generated
      pure (operator.rule widths)) := by
  cases operator with
  | reg | not | gate _ | mux | concat => rfl
  | select _ | slice _ _ | rom _ _ | ram _ _ =>
      simp only [Operator.statics, List.forM, bind_assoc, pure_bind]
      rfl

/-! ## What the rules are made of -/

namespace Circuit.Operator

variable {operator : Operator} {widths : Nat → Static.Expr} {form : Static.Expr → Prop}

/-- The rule of an operator has a type for each argument. -/
theorem length_rule_inputs (operator : Operator) (widths : Nat → Static.Expr) :
    (operator.rule widths).inputs.length = operator.arity := by
  cases operator <;> rfl

/-- Operators take and give bits and buses. -/
theorem rule_flat (operator : Operator) (widths : Nat → Static.Expr) :
    (∀ ty ∈ (operator.rule widths).inputs, ty.Flat) ∧ (operator.rule widths).output.Flat := by
  cases operator <;> simp [rule, Ty.Flat.bit, Ty.Flat.bits]

/-- The widths in the types of a rule are generated, written in the operator, or made of such. -/
theorem rule_widths (generated : ∀ index < operator.generated, form (widths index))
    (written : ∀ static ∈ operator.statics, form static)
    (sum : ∀ {left right}, form left → form right → form (.binary .add left right))
    (slice : ∀ {first last}, form first → form last → form (Rule.sliceWidth first last)) :
    (∀ ty ∈ (operator.rule widths).inputs, ∀ width ∈ ty.widths, form width) ∧
      ∀ width ∈ (operator.rule widths).output.widths, form width := by
  cases operator with
  | reg | not | gate _ | mux => simp [rule, Ty.widths]
  | select index => simpa [rule, Ty.widths] using generated 0 Nat.one_pos
  | slice first last =>
      obtain ⟨firstForm, lastForm⟩ : form first ∧ form last := by simpa [statics] using written
      simpa [rule, Ty.widths] using ⟨generated 0 Nat.one_pos, slice firstForm lastForm⟩
  | concat =>
      have left := generated 0 Nat.two_pos
      have right := generated 1 Nat.one_lt_two
      simpa [rule, Ty.widths] using ⟨⟨left, right⟩, sum left right⟩
  | rom addressSize wordSize => simpa [rule, Ty.widths, statics] using written
  | ram addressSize wordSize =>
      obtain ⟨address, word⟩ : form addressSize ∧ form wordSize := by simpa [statics] using written
      simpa [rule, Ty.widths] using ⟨address, word⟩

/-- The conditions of a rule compare widths that are generated, written in the operator, or zero. -/
theorem rule_conditions (generated : ∀ index < operator.generated, form (widths index))
    (written : ∀ static ∈ operator.statics, form static) (zero : form (.int 0)) :
    ∀ condition ∈ (operator.rule widths).conditions, ∃ op left right,
      condition = .binary op left right ∧ op.isRelational = true ∧ form left ∧ form right := by
  cases operator with
  | reg | not | gate _ | mux | concat | rom _ _ | ram _ _ => simp [rule]
  | select index =>
      intro condition inside
      obtain rfl := List.mem_singleton.mp inside
      exact ⟨_, _, _, rfl, rfl, written index List.mem_cons_self, generated 0 Nat.one_pos⟩
  | slice first last =>
      obtain ⟨firstForm, lastForm⟩ : form first ∧ form last := by simpa [statics] using written
      refine List.forall_mem_cons.mpr ⟨?_, List.forall_mem_singleton.mpr ?_⟩
      · exact ⟨_, _, _, rfl, rfl, zero, firstForm⟩
      · exact ⟨_, _, _, rfl, rfl, lastForm, generated 0 Nat.one_pos⟩

end Circuit.Operator

/-! ## What the rules mean -/

@[simp] theorem Rule.value_sliceWidth (reading : Static.Reading) (values : Static.Valuation)
    (first last : Static.Expr) : (sliceWidth first last).value reading values =
      last.value reading values - first.value reading values + 1 := by
  simp [sliceWidth, Static.Expr.value, Static.Op.value]

/-- An operator admits types only if its static expressions are integers. -/
theorem Circuit.Operator.Admits.kinds {reading : Static.Reading} {values : Static.Valuation}
    {operator : Operator} {tys : List GroundTy} {ty : GroundTy}
    (admits : operator.Admits reading values tys ty) :
    ∀ static ∈ operator.statics, static.HasKind .int := by
  cases admits with
  | reg | not | gate _ | mux | concat _ _ => simp [Operator.statics]
  | select kind _ => simpa [Operator.statics] using kind
  | slice firstKind lastKind _ _ => simpa [Operator.statics] using ⟨firstKind, lastKind⟩
  | rom addressKind wordKind | ram addressKind wordKind =>
      simpa [Operator.statics] using ⟨addressKind, wordKind⟩

/-- Where its conditions are met, the rule of an operator asks for and gives types that the operator
admits. -/
theorem Circuit.Operator.rule_admits {operator : Operator} {model : Model}
    {widths : Nat → Static.Expr} (kinds : ∀ static ∈ operator.statics, static.HasKind .int)
    (met : model.Meets (operator.rule widths).conditions) :
    operator.Admits model.reading model.values
      ((operator.rule widths).inputs.map (Ty.denote model))
      ((operator.rule widths).output.denote model) := by
  cases operator with
  | reg => exact .reg
  | not => exact .not
  | gate gate => exact .gate gate
  | mux => exact .mux
  | select index =>
      have inside : index.value model.reading model.values ≤
          (widths 0).value model.reading model.values := by simpa [rule, Model.Meets] using met
      exact .select (kinds index List.mem_cons_self) inside
  | slice first last =>
      obtain ⟨firstKind, lastKind⟩ : first.HasKind .int ∧ last.HasKind .int := by
        simpa [statics] using kinds
      obtain ⟨positive, inside⟩ : 0 < first.value model.reading model.values ∧
          last.value model.reading model.values ≤ (widths 0).value model.reading model.values := by
        simpa [rule, Model.Meets, Static.Expr.value] using met
      simpa [rule] using Admits.slice firstKind lastKind positive inside
  | concat => exact .concat _ _
  | rom addressSize wordSize =>
      obtain ⟨addressKind, wordKind⟩ : addressSize.HasKind .int ∧ wordSize.HasKind .int := by
        simpa [statics] using kinds
      exact .rom addressKind wordKind
  | ram addressSize wordSize =>
      obtain ⟨addressKind, wordKind⟩ : addressSize.HasKind .int ∧ wordSize.HasKind .int := by
        simpa [statics] using kinds
      exact .ram addressKind wordKind

end CircuitWidths
