import CircuitWidths.Proofs.Check.MirroredNodes

/-!
# Trivial equations

An equation between two equal sides folds to true when conditions are solved.  So it makes no
difference to a checked program whether such equations are collected (`checkProgram_keepTrivial`).
-/

namespace CircuitWidths

open Circuit

namespace Static

/-- An equation whose two sides are the same. -/
def Expr.isTrivial : Expr → Bool
  | .binary .eq left right => left = right
  | _ => false

/-- The conditions without trivial equations. -/
def substantial (conditions : List Expr) : List Expr :=
  conditions.filter fun condition => !condition.isTrivial

private theorem Expr.simplify_of_isTrivial {condition : Expr} (same : condition.isTrivial = true) :
    condition.simplify = .bool true := by
  unfold isTrivial at same
  split at same
  · rename_i left right
    obtain rfl : left = right := of_decide_eq_true same
    rw [simplify, foldBinary]
    -- Two equal literals are compared as numbers, and anything else as it is written.
    cases left.simplify <;> simp [foldLiterals?, foldSame?, Op.fold?, Op.onSame?]
  · cases same

private theorem settle_substantial (conditions : List Expr) :
    settle Expr.simplify (substantial conditions) = settle Expr.simplify conditions := by
  induction conditions with
  | nil => rfl
  | cons condition rest ih =>
      cases isTrivial : condition.isTrivial with
      | true =>
          have dropped : substantial (condition :: rest) = substantial rest := by
            simp [substantial, isTrivial]
          rw [dropped, ih, settle, Expr.simplify_of_isTrivial isTrivial]
      | false =>
          have kept : substantial (condition :: rest) = condition :: substantial rest := by
            simp [substantial, isTrivial]
          rw [kept, settle, settle, ih]

/-- Trivial equations do not matter for the solved form, nor for a contradiction. -/
theorem solve_substantial (params : List String) (conditions : List Expr) :
    solve params (substantial conditions) = solve params conditions := by
  rw [solve, solve, settle_substantial]

section Renamed

variable {names : String → String → Prop} {condition other : Expr}

private theorem Expr.Renamed.isTrivial_eq (unique : Relator.BiUnique names)
    (renamed : condition.Renamed names other) : condition.isTrivial = other.isTrivial := by
  cases renamed with
  | int value => rfl
  | bool value => rfl
  | var paired => rfl
  | binary op lefts rights =>
      cases op with
      | eq => exact decide_eq_decide.mpr (lefts.eq_iff unique rights)
      | add | sub | mul | div | pow | lt | le | gt | ge => rfl

private theorem substantial_renamed (unique : Relator.BiUnique names)
    (renamed : condition.Renamed names other) :
    RenamedAll names (substantial [condition]) (substantial [other]) := by
  have same := renamed.isTrivial_eq unique
  cases isTrivial : other.isTrivial with
  | true => simp [substantial, same, isTrivial]
  | false => simp [substantial, same, isTrivial, renamed]

end Renamed

end Static

namespace Constraints

variable {constraints others : Constraints} {left right : Static.Expr}

private theorem substantial_emit (condition : Static.Expr) :
    Static.substantial (constraints.emit condition).pending =
      Static.substantial constraints.pending ++ Static.substantial [condition] :=
  List.filter_append _ _

/-- Whether or not a trivial equation is collected, the rest of the conditions is the same. -/
theorem substantial_emitEqual : Static.substantial (constraints.emitEqual left right).pending =
    Static.substantial constraints.pending ++ Static.substantial [.binary .eq left right] := by
  unfold emitEqual
  by_cases skipped : left = right ∧ constraints.keepTrivial = false
  · have isTrivial : Static.substantial [.binary .eq left right] = [] := by
      simp [Static.substantial, Static.Expr.isTrivial, skipped.1]
    rw [if_pos skipped, isTrivial, List.append_nil]
  · rw [if_neg skipped, substantial_emit]

end Constraints

/-- Names and variables are paired off; pending conditions are renamed, and may differ in trivial
equations besides. -/
def Mirror.pairing (names : String → String → Prop) (vars : TyVar → TyVar → Prop)
    (names_unique : Relator.BiUnique names) (vars_unique : Relator.BiUnique vars)
    (known : String → Prop) (reported : List Diagnostic) : Mirror where
  names := names
  vars := vars
  known := known
  pending := fun constraints others =>
    Static.RenamedAll names (Static.substantial constraints.pending)
      (Static.substantial others.pending)
  reported := reported
  names_unique := names_unique
  vars_unique := vars_unique
  emit := by
    intro constraints others condition other pending renamed
    rw [Constraints.substantial_emit, Constraints.substantial_emit]
    exact List.rel_append pending (Static.substantial_renamed names_unique renamed)
  equate := by
    intro constraints others left right otherLeft otherRight pending lefts rights
    rw [Constraints.substantial_emitEqual, Constraints.substantial_emitEqual]
    exact List.rel_append pending (Static.substantial_renamed names_unique (.binary .eq lefts rights))

/-- Renamed conditions are solved alike. -/
theorem Mirror.pairing_solves {names : String → String → Prop} {vars : TyVar → TyVar → Prop}
    {names_unique : Relator.BiUnique names} {vars_unique : Relator.BiUnique vars}
    {known : String → Prop} {reported : List Diagnostic} :
    (pairing names vars names_unique vars_unique known reported).Solves where
  solve := by
    intro constraints others params pending fixed
    rw [← Static.solve_substantial params constraints.pending,
      ← Static.solve_substantial params others.pending]
    exact Static.solve_renamed names_unique fixed pending
  drain := fun _ => .nil

/-- No paired variable has been made yet. -/
theorem TypeStore.Like.of_unmade {likeness : Likeness} {store other : TypeStore}
    (wellFormed : store.WellFormed) (otherWellFormed : other.WellFormed)
    (unmade : ∀ id partner, likeness.var id partner → ¬ store.Owns id ∧ ¬ other.Owns partner) :
    store.Like likeness other where
  wellFormed := wellFormed
  otherWellFormed := otherWellFormed
  owns := by
    intro id partner paired
    obtain ⟨absent, otherAbsent⟩ := unmade id partner paired
    exact iff_of_false absent otherAbsent
  leads := by
    intro id partner head paired leads
    exact ((unmade id partner paired).1 leads.owns_start).elim

/-! ## Names and variables that stay the same -/

/-- Names and variables are the same. -/
def Mirror.same : Mirror := .pairing Eq Eq biUnique_eq biUnique_eq (fun _ => True) []

namespace Mirror

/-- Every node reads the same in a mirror that changes nothing. -/
theorem same_readsNode (node : Node) : same.ReadsNode node where
  reads := ⟨fun _ _ => Static.Expr.renamed_self fun _ _ => rfl, fun _ _ => trivial⟩
  params := fun _ _ => rfl

/-- Checkers that differ only in what they keep of trivial equations mirror each other at the
start. -/
theorem start_same (stem : String) (keep other : Bool) :
    Checker.Mirrors same (.start ⟨keep, stem⟩) (.start ⟨other, stem⟩) where
  state :=
    { types := by
        apply TypeStore.Like.of_unmade (TypeStore.empty_wellFormed 0) (TypeStore.empty_wellFormed 0)
        have unmade : ∀ id, ¬ (TypeStore.empty 0).Owns id := by
          intro id owned
          exact Nat.not_lt_zero _ (TypeStore.owns_iff.mp owned).2
        exact fun id partner _ => ⟨unmade id, unmade partner⟩
      constraints := .nil }
  freshVars := fun _ => rfl
  freshNames := fun _ => rfl
  catalog := fun _ _ => .none
  reported := rfl
  otherReported := rfl

end Mirror

/-! ## Typed forms that are alike in every respect are equal -/

private theorem Ty.Like.eq_of_same {likeness : Likeness}
    (widths : ∀ width other, likeness.width width other → width = other)
    (vars : ∀ id partner, likeness.var id partner → id = partner) {ty : Ty} :
    ∀ {other : Ty}, ty.Like likeness other → ty = other := by
  induction ty with
  | unit =>
      intro other like
      cases like
      rfl
  | bit =>
      intro other like
      cases like
      rfl
  | bits width =>
      intro other like
      cases like with
      | bits related => rw [widths _ _ related]
  | var id =>
      intro other like
      cases like with
      | var paired => rw [vars _ _ paired]
  | product members ih =>
      intro other like
      cases like with
      | product each =>
          have same := forall₂_imp_of_mem each fun member inside _ => ih member inside
          rw [List.forall₂_eq_eq_eq] at same
          rw [same]

private theorem Signature.Like.eq_of_same {signature other : Signature}
    (like : signature.Like Eq Eq other) : signature = other := by
  obtain ⟨inputs, outputs, params, constraints⟩ := like
  rw [List.forall₂_eq_eq_eq] at inputs outputs constraints
  cases signature
  simp_all

namespace Typed

private theorem Expr.Like.eq_of_same {expr : Typed.Expr} :
    ∀ {other : Typed.Expr}, expr.Like Eq other → expr = other := by
  induction expr using Expr.inductionOnArgs with
  | const span ty value =>
      intro other like
      cases like with
      | const types => rw [types]
  | wire span ty name =>
      intro other like
      cases like with
      | wire types => rw [types]
  | apply span ty operator args ih =>
      intro other like
      cases like with
      | apply types each =>
          have same := forall₂_imp_of_mem each fun arg inside _ => ih arg inside
          rw [List.forall₂_eq_eq_eq] at same
          rw [types, same]
  | call span ty node statics args ih =>
      intro other like
      cases like with
      | call types each =>
          have same := forall₂_imp_of_mem each fun arg inside _ => ih arg inside
          rw [List.forall₂_eq_eq_eq] at same
          rw [types, same]

private theorem Wire.Like.eq_of_same {wire other : Wire} (like : wire.Like Eq other) :
    wire = other := by
  obtain ⟨id, ty⟩ := wire
  obtain ⟨otherId, otherTy⟩ := other
  have ids : id = otherId := like.id
  have tys : ty = otherTy := like.ty
  rw [ids, tys]

private theorem Equation.Like.eq_of_same {equation other : Typed.Equation}
    (like : equation.Like Eq other) : equation = other := by
  obtain ⟨span, pattern, value⟩ := equation
  obtain ⟨otherSpan, otherPattern, otherValue⟩ := other
  have spans : span = otherSpan := like.span
  have patterns : pattern = otherPattern := like.pattern
  have values : value = otherValue := like.value.eq_of_same
  rw [spans, patterns, values]

private theorem Block.Like.eq_of_same {block other : Typed.Block} (like : block.Like Eq other) :
    block = other := by
  induction like with
  | system wiresLike equationsLike =>
      have wires := wiresLike.imp fun _ _ like => like.eq_of_same
      have equations := equationsLike.imp fun _ _ like => like.eq_of_same
      rw [List.forall₂_eq_eq_eq] at wires equations
      rw [wires, equations]
  | choice _ _ first second => rw [first, second]

private theorem Node.Like.eq_of_same {node other : Typed.Node} (like : node.Like Eq Eq other) :
    node = other := by
  have wires : ∀ {wires otherWires : List Wire},
      List.Forall₂ (Wire.Like Eq) wires otherWires → wires = otherWires := by
    intro wires otherWires each
    rw [← List.forall₂_eq_eq_eq]
    exact each.imp fun _ _ wireLike => wireLike.eq_of_same
  obtain ⟨span, id, params, inputs, outputs, body, signature⟩ := node
  obtain ⟨otherSpan, otherId, otherParams, otherInputs, otherOutputs, otherBody,
    otherSignature⟩ := other
  have spans : span = otherSpan := like.span
  have ids : id = otherId := like.id
  have parameters : params = otherParams := like.params
  have sameInputs : inputs = otherInputs := wires like.inputs
  have sameOutputs : outputs = otherOutputs := wires like.outputs
  have bodies : body = otherBody := like.body.eq_of_same
  have signatures : signature = otherSignature := like.signature.eq_of_same
  rw [spans, ids, parameters, sameInputs, sameOutputs, bodies, signatures]

end Typed

private theorem Rejection.Like.eq_of_same {rejection other : Rejection}
    (like : rejection.Like Eq Eq other) : rejection = other := by
  obtain ⟨span, cause⟩ := rejection
  obtain ⟨otherSpan, otherCause⟩ := other
  have spans : span = otherSpan := like.span
  have causes : cause = otherCause := by
    have causeLike : cause.Like Eq Eq otherCause := like.cause
    cases causeLike <;> simp_all
  rw [spans, causes]

namespace Mirror

variable {ty otherTy : Ty} {condition other : Static.Expr}

private theorem same_tys (like : same.Tys ty otherTy) : ty = otherTy :=
  like.eq_of_same (fun _ _ renamed => Static.Expr.Renamed.eq_of_same renamed)
    fun _ _ paired => paired

private theorem same_conditions (renamed : same.Conditions condition other) :
    condition = other :=
  Static.Expr.Renamed.eq_of_same renamed

private theorem same_typed {typed other : Typed.Node}
    (like : typed.Like same.Tys same.Conditions other) : typed = other :=
  (like.imp (fun _ _ => same_tys) fun _ _ => same_conditions).eq_of_same

private theorem same_rejection {rejection other : Rejection}
    (like : rejection.Like same.Tys same.Conditions other) : rejection = other :=
  (like.imp (fun _ _ => same_tys) fun _ _ => same_conditions).eq_of_same

end Mirror

/-! ## Programs -/

namespace Circuit

/-- **Trivial equations do not matter.**  Whether or not equations between equal widths are
collected, a program gets the same typed nodes, or is rejected with the same single diagnostic. -/
theorem checkProgram_keepTrivial (stem : String) (nodes : List Node) :
    (∃ typeds kept dropped,
      checkProgram ⟨true, stem⟩ nodes = .ok typeds kept ∧
      checkProgram ⟨false, stem⟩ nodes = .ok typeds dropped ∧
      kept.reported = [] ∧ dropped.reported = []) ∨
    ∃ diagnostic kept dropped,
      checkProgram ⟨true, stem⟩ nodes = .error .reported kept ∧
      checkProgram ⟨false, stem⟩ nodes = .error .reported dropped ∧
      kept.reported = [diagnostic] ∧ dropped.reported = [diagnostic] := by
  have inStep := checkNodes_mirrored Mirror.pairing_solves nodes
    (fun node _ => Mirror.same_readsNode node) (Mirror.start_same stem true false)
  have ends := checkNodes_ends nodes (Checker.start_ready ⟨true, stem⟩)
  unfold checkProgram
  generalize run : checkNodes nodes (.start ⟨true, stem⟩) = outcome at inStep ⊢
  generalize checkNodes nodes (.start ⟨false, stem⟩) = otherOutcome at inStep ⊢
  cases inStep with
  | @returned typeds others kept dropped related =>
      obtain ⟨mirrors, each⟩ := related
      have same := each.imp fun _ _ like => Mirror.same_typed like
      rw [List.forall₂_eq_eq_eq] at same
      exact .inl ⟨typeds, kept, dropped, rfl, by rw [same], mirrors.reported, mirrors.otherReported⟩
  | @failed error other kept dropped stopped =>
      obtain ⟨node, _, stopped⟩ := stopped
      cases stopped with
      | @reported _ _ rejection otherRejection like first second =>
          rw [← Mirror.same_rejection like] at second
          exact .inr ⟨rejection.toDiagnostic node.id, kept, dropped, rfl, rfl, first, second⟩
      | fault fault _ _ => cases (ends.failed run).1

end Circuit

end CircuitWidths
