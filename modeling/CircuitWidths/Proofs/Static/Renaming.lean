import CircuitWidths.Proofs.Static.Solving
import Mathlib.Data.List.Forall2
import Mathlib.Logic.Relator

/-!
# Renamed static variables

Two expressions are renamed forms of each other if they are the same but for their variables, which
a relation of names pairs off.  Where each name has at most one partner on either side, nothing that
folding and solving look at depends on the names: renamed conditions are solved to renamed
conditions, or show renamed contradictions.
-/

namespace CircuitWidths

namespace Static

variable {names : String → String → Prop}

/-- The expressions differ in the names of variables only, which are paired off. -/
inductive Expr.Renamed (names : String → String → Prop) : Expr → Expr → Prop
  | int (value : Int) : Renamed names (.int value) (.int value)
  | bool (value : Bool) : Renamed names (.bool value) (.bool value)
  | var {name other : String} (paired : names name other) : Renamed names (.var name) (.var other)
  | binary (op : Op) {left right otherLeft otherRight : Expr}
      (lefts : Renamed names left otherLeft) (rights : Renamed names right otherRight) :
      Renamed names (.binary op left right) (.binary op otherLeft otherRight)

/-- Paired names are bound to renamed expressions, or both to nothing. -/
def BoundAlike (names : String → String → Prop) (bindings others : Bindings Expr) : Prop :=
  ∀ name other, names name other →
    Option.Rel (Expr.Renamed names) (bindings.get? name) (others.get? other)

namespace Expr

variable {expr other left right otherLeft otherRight : Expr}

/-- An expression whose variables are paired with themselves is its own renamed form. -/
theorem renamed_self (fixed : ∀ name, expr.mentions name = true → names name name) :
    expr.Renamed names expr := by
  induction expr with
  | int value => exact .int value
  | bool value => exact .bool value
  | var name => exact .var (fixed name (by simp [mentions]))
  | binary op left right ihLeft ihRight =>
      apply Renamed.binary
      · exact ihLeft fun name inside => fixed name (by simp [mentions, inside])
      · exact ihRight fun name inside => fixed name (by simp [mentions, inside])

/-- What an operation folds to is a literal. -/
theorem folded_closed {op : Op} {folded : Expr}
    (found : (foldLiterals? op left right).or (foldSame? op left right) = some folded)
    (name : String) : folded.mentions name = false := by
  rcases Option.or_eq_some_iff.mp found with computed | ⟨_, decided⟩
  · unfold foldLiterals? at computed
    split at computed
    · exact Op.fold?_mentions computed name
    · cases computed
  · unfold foldSame? at decided
    split at decided
    · obtain ⟨truth, _, rfl⟩ := Option.map_eq_some_iff.mp decided
      rfl
    · cases decided

namespace Renamed

/-- Expressions whose names are paired with themselves only are equal. -/
theorem eq_of_same (renamed : expr.Renamed Eq other) : expr = other := by
  induction renamed with
  | int value => rfl
  | bool value => rfl
  | var paired => rw [paired]
  | binary op _ _ ihLeft ihRight => rw [ihLeft, ihRight]

section OneToOne

variable (unique : Relator.BiUnique names)

include unique

private theorem left_unique {third : Expr} (renamed : expr.Renamed names third)
    (also : other.Renamed names third) : expr = other := by
  induction renamed generalizing other with
  | int value =>
      cases also
      rfl
  | bool value =>
      cases also
      rfl
  | var paired =>
      cases also with
      | var alsoPaired => rw [unique.1 paired alsoPaired]
  | binary op _ _ ihLeft ihRight =>
      cases also with
      | binary _ lefts rights => rw [ihLeft lefts, ihRight rights]

private theorem right_unique {third : Expr} (renamed : third.Renamed names expr)
    (also : third.Renamed names other) : expr = other := by
  induction renamed generalizing other with
  | int value =>
      cases also
      rfl
  | bool value =>
      cases also
      rfl
  | var paired =>
      cases also with
      | var alsoPaired => rw [unique.2 paired alsoPaired]
  | binary op _ _ ihLeft ihRight =>
      cases also with
      | binary _ lefts rights => rw [ihLeft lefts, ihRight rights]

/-- Two sides are the same exactly if their renamed forms are. -/
theorem eq_iff (lefts : left.Renamed names otherLeft) (rights : right.Renamed names otherRight) :
    left = right ↔ otherLeft = otherRight := by
  constructor
  · rintro rfl
    exact lefts.right_unique unique rights
  · rintro rfl
    exact lefts.left_unique unique rights

private theorem mentions_eq {name partner : String} (paired : names name partner)
    (renamed : expr.Renamed names other) : expr.mentions name = other.mentions partner := by
  induction renamed with
  | int value => rfl
  | bool value => rfl
  | @var found otherFound alsoPaired =>
      have same : found = name ↔ otherFound = partner := by
        constructor
        · rintro rfl
          exact unique.2 alsoPaired paired
        · rintro rfl
          exact unique.1 alsoPaired paired
      rw [mentions, mentions, Bool.eq_iff_iff, beq_iff_eq, beq_iff_eq, same]
  | binary op _ _ ihLeft ihRight => rw [mentions, mentions, ihLeft, ihRight]

private theorem foldBinary (op : Op) (lefts : left.Renamed names otherLeft)
    (rights : right.Renamed names otherRight) :
    (foldBinary op left right).Renamed names (foldBinary op otherLeft otherRight) := by
  have literals : foldLiterals? op left right = foldLiterals? op otherLeft otherRight := by
    cases lefts <;> cases rights <;> rfl
  have same : foldSame? op left right = foldSame? op otherLeft otherRight := by
    simp only [foldSame?, lefts.eq_iff unique rights]
  unfold Expr.foldBinary
  rw [literals, same]
  cases found : (foldLiterals? op otherLeft otherRight).or (foldSame? op otherLeft otherRight) with
  | none => exact .binary op lefts rights
  | some folded =>
      apply renamed_self
      intro name inside
      have absent := folded_closed found name
      rw [Option.getD_some, absent] at inside
      cases inside

/-- Renamed expressions are simplified alike. -/
theorem simplify (renamed : expr.Renamed names other) :
    expr.simplify.Renamed names other.simplify := by
  induction renamed with
  | int value => exact .int value
  | bool value => exact .bool value
  | var paired => exact .var paired
  | binary op _ _ ihLeft ihRight => exact ihLeft.foldBinary unique op ihRight

end OneToOne

/-- Renamed expressions stay so if names are bound to renamed replacements. -/
theorem substitute {bindings others : Bindings Expr} (bound : BoundAlike names bindings others)
    (renamed : expr.Renamed names other) :
    (expr.substitute bindings).Renamed names (other.substitute others) := by
  induction renamed with
  | int value => exact .int value
  | bool value => exact .bool value
  | @var name partner paired =>
      have alike := bound name partner paired
      rw [Expr.substitute, Expr.substitute]
      generalize bindings.get? name = found at alike ⊢
      generalize others.get? partner = otherFound at alike ⊢
      cases alike with
      | none => exact .var paired
      | some replaced => exact replaced
  | binary op _ _ ihLeft ihRight => exact .binary op ihLeft ihRight

end Renamed

end Expr

/-! ## Bindings -/

namespace BoundAlike

variable {bindings others : Bindings Expr}

theorem empty : BoundAlike names .empty .empty := fun _ _ _ => .none

/-- Names that are paired may be bound to renamed replacements. -/
theorem insert (unique : Relator.BiUnique names) (bound : BoundAlike names bindings others)
    {name partner : String} (paired : names name partner) {value replaced : Expr}
    (renamed : value.Renamed names replaced) :
    BoundAlike names (bindings.insert name value) (others.insert partner replaced) := by
  intro found otherFound alsoPaired
  rw [Bindings.get?_insert, Bindings.get?_insert]
  by_cases same : found = name
  · subst same
    rw [if_pos rfl, if_pos (unique.2 alsoPaired paired)]
    exact .some renamed
  · have differs : otherFound ≠ partner := by
      rintro rfl
      exact same (unique.1 alsoPaired paired)
    rw [if_neg same, if_neg differs]
    exact bound found otherFound alsoPaired

private theorem insertAll (unique : Relator.BiUnique names) {pairs : List (String × Expr)}
    (fixed : ∀ pair ∈ pairs, names pair.1 pair.1 ∧ pair.2.Renamed names pair.2)
    (bound : BoundAlike names bindings others) :
    BoundAlike names (bindings.insertAll pairs) (others.insertAll pairs) := by
  induction pairs generalizing bindings others with
  | nil => exact bound
  | cons pair pairs ih =>
      obtain ⟨⟨paired, renamed⟩, rest⟩ := List.forall_mem_cons.mp fixed
      exact ih rest (bound.insert unique paired renamed)

/-- Parameters that keep their names are bound alike to arguments that keep theirs. -/
theorem ofList_zip (unique : Relator.BiUnique names) {params : List String} {args : List Expr}
    (fixedParams : ∀ param ∈ params, names param param)
    (fixedArgs : ∀ arg ∈ args, arg.Renamed names arg) :
    BoundAlike names (.ofList (params.zip args)) (.ofList (params.zip args)) := by
  apply insertAll unique _ empty
  intro pair inside
  obtain ⟨isParam, isArg⟩ := List.of_mem_zip inside
  exact ⟨fixedParams _ isParam, fixedArgs _ isArg⟩

end BoundAlike

/-! ## Solving -/

/-- Both runs succeed with related values, or both fail with related errors. -/
inductive Agree {ε α : Type} (errors : ε → ε → Prop) (values : α → α → Prop) :
    Except ε α → Except ε α → Prop
  | ok {value other : α} (related : values value other) : Agree errors values (.ok value) (.ok other)
  | error {error other : ε} (related : errors error other) :
      Agree errors values (.error error) (.error other)

namespace Agree

variable {ε α β : Type} {errors : ε → ε → Prop} {values : α → α → Prop} {results : β → β → Prop}
  {run other : Except ε α}

private theorem map {f g : α → β} (agree : Agree errors values run other)
    (maps : ∀ value partner, values value partner → results (f value) (g partner)) :
    Agree errors results (run.map f) (other.map g) := by
  cases agree with
  | ok related => exact .ok (maps _ _ related)
  | error related => exact .error related

private theorem bind {f g : α → Except ε β} (agree : Agree errors values run other)
    (continues : ∀ value partner, values value partner →
      Agree errors results (f value) (g partner)) :
    Agree errors results (run >>= f) (other >>= g) := by
  cases agree with
  | ok related => exact continues _ _ related
  | error related => exact .error related

end Agree

/-- Renamed conditions, in the same order. -/
abbrev RenamedAll (names : String → String → Prop) : List Expr → List Expr → Prop :=
  List.Forall₂ (Expr.Renamed names)

/-- Contradictions that show in renamed conditions. -/
def Contradiction.Renamed (names : String → String → Prop) (found other : Contradiction) : Prop :=
  found.condition.Renamed names other.condition

/-- Eliminations of paired variables by renamed values. -/
structure Elimination.Renamed (names : String → String → Prop) (elimination other : Elimination) :
    Prop where
  name : names elimination.name other.name
  value : elimination.value.Renamed names other.value

section Solving

variable {params : List String} {conditions others : List Expr}

private theorem settle_renamed {step otherStep : Expr → Expr}
    (steps : ∀ condition other, condition.Renamed names other →
      (step condition).Renamed names (otherStep other))
    (renamed : RenamedAll names conditions others) :
    Agree (Contradiction.Renamed names) (RenamedAll names) (settle step conditions)
      (settle otherStep others) := by
  induction renamed with
  | nil => exact .ok .nil
  | @cons condition other rest otherRest head _ ih =>
      have stepped := steps condition other head
      rw [settle, settle]
      generalize step condition = settled at stepped ⊢
      generalize otherStep other = otherSettled at stepped ⊢
      cases stepped with
      | bool value =>
          cases value with
          | true => exact ih
          | false => exact .error head
      | int value => exact ih.map fun _ _ tail => .cons (.int value) tail
      | var paired => exact ih.map fun _ _ tail => .cons (.var paired) tail
      | binary op lefts rights => exact ih.map fun _ _ tail => .cons (.binary op lefts rights) tail

variable (unique : Relator.BiUnique names)

include unique

private theorem Elimination.Renamed.apply {elimination other : Elimination}
    (eliminations : elimination.Renamed names other) {condition otherCondition : Expr}
    (renamed : condition.Renamed names otherCondition) :
    (elimination.apply condition).Renamed names (other.apply otherCondition) := by
  have bound : BoundAlike names elimination.bindings other.bindings :=
    BoundAlike.empty.insert unique eliminations.name eliminations.value
  exact (renamed.substitute bound).simplify unique

variable (fixed : ∀ param ∈ params, names param param)

include fixed

private theorem solvedFor?_renamed {side otherSide value otherValue : Expr}
    (sides : side.Renamed names otherSide) (values : value.Renamed names otherValue) :
    Option.Rel (Elimination.Renamed names) (solvedFor? params side value)
      (solvedFor? params otherSide otherValue) := by
  cases sides with
  | int _ => exact .none
  | bool _ => exact .none
  | binary _ _ _ => exact .none
  | @var name partner paired =>
      -- A parameter is its own partner, so it is paired with nothing else.
      have isParam : name ∈ params ↔ partner ∈ params := by
        constructor
        · intro inside
          exact unique.2 (fixed name inside) paired ▸ inside
        · intro inside
          exact unique.1 (fixed partner inside) paired ▸ inside
      simp only [solvedFor?, isParam, values.mentions_eq unique paired]
      split
      · exact .none
      · exact .some ⟨paired, values⟩

private theorem elimination?_renamed {condition other : Expr}
    (renamed : condition.Renamed names other) :
    Option.Rel (Elimination.Renamed names) (elimination? params condition)
      (elimination? params other) := by
  cases renamed with
  | int _ => exact .none
  | bool _ => exact .none
  | var _ => exact .none
  | @binary op left right otherLeft otherRight lefts rights =>
      cases op with
      | eq =>
          have fromLeft := solvedFor?_renamed unique fixed lefts rights
          have fromRight := solvedFor?_renamed unique fixed rights lefts
          rw [elimination?, elimination?]
          generalize solvedFor? params left right = found at fromLeft ⊢
          generalize solvedFor? params otherLeft otherRight = otherFound at fromLeft ⊢
          cases fromLeft with
          | none => exact fromRight
          | some eliminations => exact .some eliminations
      | add | sub | mul | div | pow | lt | le | gt | ge => exact .none

private theorem extract?_renamed (renamed : RenamedAll names conditions others) :
    Option.Rel (fun found other => found.1.Renamed names other.1 ∧ RenamedAll names found.2 other.2)
      (extract? params conditions) (extract? params others) := by
  induction renamed with
  | nil => exact .none
  | @cons condition other rest otherRest head tail ih =>
      have eliminations := elimination?_renamed unique fixed head
      rw [extract?, extract?]
      generalize elimination? params condition = found at eliminations ⊢
      generalize elimination? params other = otherFound at eliminations ⊢
      cases eliminations with
      | some renamed => exact .some ⟨renamed, tail⟩
      | none =>
          generalize extract? params rest = later at ih ⊢
          generalize extract? params otherRest = otherLater at ih ⊢
          cases ih with
          | none => exact .none
          | some extracted => exact .some ⟨extracted.1, .cons head extracted.2⟩

private theorem eliminate_renamed (rounds : Nat) (renamed : RenamedAll names conditions others) :
    Agree (Contradiction.Renamed names) (RenamedAll names) (eliminate params rounds conditions)
      (eliminate params rounds others) := by
  induction rounds generalizing conditions others with
  | zero => exact .ok renamed
  | succ rounds ih =>
      have extracted := extract?_renamed unique fixed renamed
      rw [eliminate, eliminate]
      generalize extract? params conditions = found at extracted ⊢
      generalize extract? params others = otherFound at extracted ⊢
      cases extracted with
      | none => exact .ok renamed
      | some both =>
          have settled := settle_renamed (fun _ _ => both.1.apply unique) both.2
          exact settled.bind fun _ _ remaining => ih remaining

/-- Renamed conditions are solved to renamed conditions, where the parameters keep their names. -/
theorem solve_renamed (renamed : RenamedAll names conditions others) :
    Agree (Contradiction.Renamed names) (RenamedAll names) (solve params conditions)
      (solve params others) := by
  have settled := settle_renamed (fun _ _ folded => folded.simplify unique) renamed
  apply settled.bind
  intro simplified otherSimplified remaining
  rw [remaining.length_eq]
  exact eliminate_renamed unique fixed _ remaining

end Solving

end Static

end CircuitWidths
