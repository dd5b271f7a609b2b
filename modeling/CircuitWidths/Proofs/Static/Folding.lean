import CircuitWidths.Proofs.Static.Kinds

/-!
# Folded expressions

An expression is folded if nothing in it is left to compute (`Expr.Folded`).  Simplifying gives a
folded expression of the same kind, value and variables.  It may be done at any time: variables can
be replaced before or after, the simplified result is the same
(`Expr.simplify_substitute_simplify`).
-/

namespace CircuitWidths

namespace Static

namespace Expr

variable {expr left right : Expr} {op : Op}

/-- No operation in the expression can be computed: none is on two integers that the operator
computes, and none compares equal sides. -/
inductive Folded : Expr → Prop
  | int (value : Int) : Folded (.int value)
  | bool (value : Bool) : Folded (.bool value)
  | var (name : String) : Folded (.var name)
  | binary {op : Op} {left right : Expr} (leftFolded : Folded left) (rightFolded : Folded right)
      (uncomputed : ∀ first second, left = .int first → right = .int second →
        op.fold? first second = none)
      (undecided : left = right → op.onSame? = none) : Folded (.binary op left right)

/-! ## Single operations -/

/-- A computed operation is a literal. -/
theorem fold?_literal {first second : Int} {folded : Expr}
    (computed : op.fold? first second = some folded) :
    (∃ value, folded = .int value) ∨ ∃ truth, folded = .bool truth := by
  cases op with
  | add | sub | mul => exact .inl ⟨_, (Option.some.inj computed).symm⟩
  | div =>
      simp only [Op.fold?] at computed
      split at computed
      · cases computed
      · exact .inl ⟨_, (Option.some.inj computed).symm⟩
  | pow =>
      obtain ⟨result, _, rfl⟩ := Option.map_eq_some_iff.mp computed
      exact .inl ⟨result, rfl⟩
  | eq | lt | le | gt | ge => exact .inr ⟨_, (Option.some.inj computed).symm⟩

private theorem foldBinary_of_computed {first second : Int} {folded : Expr}
    (computed : op.fold? first second = some folded) :
    foldBinary op (.int first) (.int second) = folded := by
  simp [foldBinary, foldLiterals?, computed]

/-- An operation that can not be computed stays. -/
theorem foldBinary_of_stuck
    (uncomputed : ∀ first second, left = .int first → right = .int second →
      op.fold? first second = none)
    (undecided : left = right → op.onSame? = none) :
    foldBinary op left right = .binary op left right := by
  rcases foldBinary_cases op left right with
    ⟨first, second, folded, leftEq, rightEq, computed, _⟩ | ⟨truth, same, decided, _⟩ | stuck
  · rw [uncomputed first second leftEq rightEq] at computed
    cases computed
  · rw [undecided same] at decided
    cases decided
  · exact stuck

/-- A comparison of equal sides is decided the same way whatever the sides are: integers are
compared, and other sides need not be. -/
theorem foldBinary_same {truth : Bool} (decided : op.onSame? = some truth) (side : Expr) :
    foldBinary op side side = .bool truth := by
  cases side with
  | int value =>
      cases op with
      | add | sub | mul | div | pow => cases decided
      | eq | lt | le | gt | ge =>
          obtain rfl := Option.some.inj decided
          simp [foldBinary, foldLiterals?, Op.fold?]
  | bool value => simp [foldBinary, foldLiterals?, foldSame?, decided]
  | var name => simp [foldBinary, foldLiterals?, foldSame?, decided]
  | binary inner first second => simp [foldBinary, foldLiterals?, foldSame?, decided]

private theorem Folded.foldBinary (leftFolded : left.Folded) (rightFolded : right.Folded) :
    (foldBinary op left right).Folded := by
  by_cases computable : ∃ first second folded, left = .int first ∧ right = .int second ∧
      op.fold? first second = some folded
  · obtain ⟨first, second, folded, rfl, rfl, computed⟩ := computable
    rw [foldBinary_of_computed computed]
    rcases fold?_literal computed with ⟨value, rfl⟩ | ⟨truth, rfl⟩
    · exact .int value
    · exact .bool truth
  by_cases decidable : ∃ truth, left = right ∧ op.onSame? = some truth
  · obtain ⟨truth, rfl, decided⟩ := decidable
    rw [foldBinary_same decided]
    exact .bool truth
  have uncomputed : ∀ first second, left = .int first → right = .int second →
      op.fold? first second = none := by
    intro first second leftEq rightEq
    rw [Option.eq_none_iff_forall_ne_some]
    exact fun folded computed => computable ⟨first, second, folded, leftEq, rightEq, computed⟩
  have undecided : left = right → op.onSame? = none := by
    intro same
    rw [Option.eq_none_iff_forall_ne_some]
    exact fun truth decided => decidable ⟨truth, same, decided⟩
  rw [foldBinary_of_stuck uncomputed undecided]
  exact .binary leftFolded rightFolded uncomputed undecided

/-! ## Whole expressions -/

/-- Nothing is left to fold in a simplified expression. -/
theorem folded_simplify (expr : Expr) : expr.simplify.Folded := by
  induction expr with
  | int value => exact .int value
  | bool value => exact .bool value
  | var name => exact .var name
  | binary op left right leftIh rightIh => exact leftIh.foldBinary rightIh

/-- Simplification changes nothing where nothing is left to fold. -/
theorem Folded.simplify_eq (folded : expr.Folded) : expr.simplify = expr := by
  induction folded with
  | int value => rfl
  | bool value => rfl
  | var name => rfl
  | binary _ _ uncomputed undecided leftIh rightIh =>
      rw [simplify, leftIh, rightIh]
      exact foldBinary_of_stuck uncomputed undecided

private theorem simplify_eq_self_iff : expr.simplify = expr ↔ expr.Folded := by
  constructor
  · intro same
    rw [← same]
    exact folded_simplify expr
  · exact Folded.simplify_eq

@[simp] theorem simplify_simplify (expr : Expr) : expr.simplify.simplify = expr.simplify :=
  (folded_simplify expr).simplify_eq

/-- Simplifying before variables are replaced does not show in the simplified result. -/
theorem simplify_substitute_simplify (bindings : Bindings Expr) (expr : Expr) :
    (expr.simplify.substitute bindings).simplify = (expr.substitute bindings).simplify := by
  induction expr with
  | int value => rfl
  | bool value => rfl
  | var name => rfl
  | binary op left right leftIh rightIh =>
      rw [substitute, simplify, simplify, ← leftIh, ← rightIh]
      rcases foldBinary_cases op left.simplify right.simplify with
        ⟨first, second, folded, leftEq, rightEq, computed, result⟩ |
          ⟨truth, same, decided, result⟩ | result
      · -- Literals stay when variables are replaced, so the same operation is computed later.
        rw [result, leftEq, rightEq]
        have later := foldBinary_of_computed computed
        rcases fold?_literal computed with ⟨value, rfl⟩ | ⟨value, rfl⟩
        · exact later.symm
        · exact later.symm
      · -- Equal sides stay equal, also where the replaced sides become integers.
        rw [result, same]
        exact (foldBinary_same decided _).symm
      · rw [result]
        rfl

/-- **Simplifying keeps the meaning.**  A simplified expression has the kind of the expression, the
same value under every valuation, whatever division by zero and negative powers give, and no other
variables; and nothing is left in it to compute. -/
theorem simplify_preserves_meaning {kind : Kind} (hasKind : expr.HasKind kind)
    (reading : Reading) (values : Valuation) :
    expr.simplify.HasKind kind ∧
      expr.simplify.value reading values = expr.value reading values ∧
      (∀ name, expr.simplify.mentions name = true → expr.mentions name = true) ∧
      expr.simplify.Folded :=
  ⟨hasKind.simplify, value_simplify expr, fun _ => mentions_of_mentions_simplify,
    folded_simplify expr⟩

/-- The condition that `-7 / 2 + 2 ^ 3` is at most `n / 0`, whose right side can not be computed. -/
def quotientBound : Expr :=
  .binary .le (.binary .add (.binary .div (.int (-7)) (.int 2)) (.binary .pow (.int 2) (.int 3)))
    (.binary .div (.var "n") (.int 0))

/-- Division rounds toward zero, so the left side is five, and the division by zero stays. -/
theorem simplify_preserves_meaning_quotient :
    quotientBound.HasKind .bool ∧
      quotientBound.simplify = .binary .le (.int 5) (.binary .div (.var "n") (.int 0)) ∧
      (quotientBound.simplify.HasKind .bool ∧
        quotientBound.simplify.value ⟨fun left => left + 3, fun _ _ => 1⟩ (fun _ => 2) =
          quotientBound.value ⟨fun left => left + 3, fun _ _ => 1⟩ (fun _ => 2) ∧
        (∀ name, quotientBound.simplify.mentions name = true →
          quotientBound.mentions name = true) ∧
        quotientBound.simplify.Folded) :=
  ⟨by decide +kernel, by decide +kernel, simplify_preserves_meaning (by decide +kernel) _ _⟩

/-- **Simplifying early does not show.**  Whatever the variables of an expression are replaced by,
and whether or not the expression has a kind, it may be simplified before: the simplified result is
the same.  Simplifying once is enough, and it changes nothing exactly where nothing is left to
compute. -/
theorem simplify_early (expr : Expr) :
    (∀ bindings, (expr.simplify.substitute bindings).simplify =
      (expr.substitute bindings).simplify) ∧
      expr.simplify.simplify = expr.simplify ∧
      (expr.simplify = expr ↔ expr.Folded) :=
  ⟨fun bindings => simplify_substitute_simplify bindings expr, simplify_simplify expr,
    simplify_eq_self_iff⟩

end Expr

end Static

end CircuitWidths
