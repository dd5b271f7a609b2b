import CircuitWidths.Proofs.Check.Renaming
import CircuitWidths.Proofs.Check.Reporting

/-!
# Nodes do not interfere

A node that no other node calls, and that is accepted, can be taken out of a program.  The other
nodes are accepted as before, with the same typed forms but for the numbers of generated widths and
type variables, or the program is rejected as before (`checkProgram_without`).
-/

namespace CircuitWidths

open CheckM Circuit TypeStore

variable {stem : String} {checker next : Checker} {node : Node} {typed : Typed.Node}

/-! ## Numbers that stay -/

private theorem Typed.Node.Settled.like_resuming {grown : checker.Extends next}
    (settled : typed.Settled stem checker) :
    typed.Like ((Renaming.resuming (.refl checker) grown).Tys stem)
      ((Renaming.resuming (.refl checker) grown).Conditions stem) typed := by
  apply Typed.Node.like_self
  · intro ty member
    apply Ty.like_self
    · exact fun width inside => (settled.below.types ty member width inside).renamed_resuming
    · intro id inside
      exact ⟨rfl, .inl ⟨(owns_iff.mp (settled.owned ty member id inside)).2, rfl⟩⟩
  · exact fun condition inside => (settled.below.conditions condition inside).renamed_resuming

/-! ## Two sessions, one of which has checked another node -/

/-- The second session has checked one more node, under a name of its own. -/
structure Checker.OneMore (stem : String) (checker : Checker) (node : Node) (next : Checker) :
    Prop where
  regular : checker.Regular stem
  nextRegular : next.Regular stem
  grown : checker.Extends next
  catalog : ∀ name, name ≠ node.id.name → next.catalog.get? name = checker.catalog.get? name

private theorem Checker.Regular.oneMore (regular : checker.Regular stem) (spares : node.Spares stem)
    (accepted : node.check checker = .ok typed next) : checker.OneMore stem node next := by
  have continues := regular.check spares accepted
  obtain ⟨phases⟩ := node.exists_phases regular.ready accepted
  refine ⟨regular, continues.regular, continues.grown, ?_⟩
  intro name differs
  rw [phases.concluded.catalog, phases.grows.catalog, Catalog.get?_register, if_neg differs,
    Node.callable, Catalog.get?_register, if_neg differs]

namespace Checker.OneMore

variable (oneMore : checker.OneMore stem node next)

/-- Numbers that were used before stay, and those used later are moved up. -/
def renames : Renaming := .resuming (.refl checker) oneMore.grown

/-- Variables that are made later are paired, in the order in which they are made. -/
def NewVars (id partner : TyVar) : Prop :=
  oneMore.renames.Vars id partner ∧ checker.types.size ≤ id.index

private theorem newVars_unique : Relator.BiUnique oneMore.NewVars := by
  constructor
  · exact fun _ _ _ first second => oneMore.renames.vars_biUnique.1 first.1 second.1
  · exact fun _ _ _ first second => oneMore.renames.vars_biUnique.2 first.1 second.1

/-- How the two sessions go on: the name of the additional node is not used. -/
def mirror : Mirror :=
  .pairing (oneMore.renames.Names stem) oneMore.NewVars (oneMore.renames.names_unique stem)
    oneMore.newVars_unique (fun name => name ≠ node.id.name) []

private theorem tys_renamed {ty other : Ty} (like : oneMore.mirror.Tys ty other) :
    oneMore.renames.Tys stem ty other := by
  apply Ty.Like.imp _ _ like
  · exact fun _ _ widths => widths
  · exact fun _ _ paired => paired.1

private theorem mirrors : checker.Mirrors oneMore.mirror next where
  state :=
    { types := by
        apply TypeStore.Like.of_unmade oneMore.regular.ready.types oneMore.nextRegular.ready.types
        rintro id partner ⟨⟨_, moved⟩, made⟩
        constructor
        · intro owned
          have old := (owns_iff.mp owned).2
          omega
        · intro owned
          have old := (owns_iff.mp owned).2
          rcases moved with ⟨below, _⟩ | ⟨_, moved⟩ <;> omega
      constraints := by
        show Static.RenamedAll _ (Static.substantial checker.constraints.pending)
          (Static.substantial next.constraints.pending)
        rw [oneMore.regular.ready.drained, oneMore.nextRegular.ready.drained]
        exact .nil }
  freshVars := by
    intro count
    refine ⟨⟨oneMore.grown.types.owner.symm, .inr ⟨Nat.le_add_right _ _, ?_⟩⟩, Nat.le_add_right _ _⟩
    show next.types.size + count + checker.types.size = checker.types.size + count + next.types.size
    omega
  freshNames := by
    intro count
    rw [oneMore.regular.numbers.named, oneMore.nextRegular.numbers.named]
    refine .inl ⟨_, _, .inr ⟨Nat.le_add_right _ _, ?_⟩, rfl, rfl⟩
    omega
  catalog := by
    intro name differs
    rw [oneMore.catalog name differs]
    cases known : checker.catalog.get? name with
    | none => exact .none
    | some signature =>
        have below := oneMore.regular.numbers.catalog name signature known
        exact .some (below.mirrors_self (oneMore.regular.ready.catalog name signature known) rfl)
  reported := oneMore.regular.mirrors.reported
  otherReported := oneMore.nextRegular.mirrors.reported

private theorem readsNode {other : Node} (spares : other.Spares stem)
    (apart : ∀ call ∈ other.body.calls, call.node ≠ node.id.name) :
    oneMore.mirror.ReadsNode other where
  reads := ⟨fun static inside => ((spares.statics static inside).below _).renamed_resuming, apart⟩
  params := by
    intro param inside
    refine .inr ⟨rfl, ?_⟩
    rintro index rfl
    exact spares.params index inside

/-- The other nodes are checked in step. -/
theorem checkNodes (nodes : List Node) (spared : ∀ other ∈ nodes, other.Spares stem)
    (apart : ∀ other ∈ nodes, ∀ call ∈ other.body.calls, call.node ≠ node.id.name) :
    InStep (fun typeds others _ _ => List.Forall₂
        (Typed.Node.Like (oneMore.renames.Tys stem) (oneMore.renames.Conditions stem)) typeds others)
      (fun error otherError final otherFinal => error = .reported ∧ otherError = .reported ∧
        ∃ owner ∈ nodes, ∃ rejection otherRejection : Rejection,
          final.reported = [rejection.toDiagnostic owner.id] ∧
          otherFinal.reported = [otherRejection.toDiagnostic owner.id] ∧
          rejection.Like (oneMore.renames.Tys stem) (oneMore.renames.Conditions stem) otherRejection)
      (Circuit.checkNodes nodes checker) (Circuit.checkNodes nodes next) := by
  have reads : ∀ other ∈ nodes, oneMore.mirror.ReadsNode other :=
    fun other inside => oneMore.readsNode (spared other inside) (apart other inside)
  have inStep := checkNodes_mirrored Mirror.pairing_solves nodes reads oneMore.mirrors
  have ends := checkNodes_ends nodes oneMore.regular.ready
  generalize run : Circuit.checkNodes nodes checker = outcome at inStep ⊢
  generalize Circuit.checkNodes nodes next = otherOutcome at inStep ⊢
  cases inStep with
  | returned related =>
      apply InStep.returned
      exact related.2.imp fun _ _ like =>
        like.imp (fun _ _ types => oneMore.tys_renamed types) fun _ _ renamed => renamed
  | failed stopped =>
      obtain ⟨owner, member, stopped⟩ := stopped
      cases stopped with
      | @reported _ _ rejection otherRejection like first second =>
          apply InStep.failed
          refine ⟨rfl, rfl, owner, member, rejection, otherRejection, first, second, ?_⟩
          exact like.imp (fun _ _ types => oneMore.tys_renamed types) fun _ _ renamed => renamed
      | fault fault _ _ => cases (ends.failed run).1

end Checker.OneMore

/-! ## Programs -/

namespace Renaming

private theorem refl_conditions (expr : Static.Expr) : refl.Conditions stem expr expr := by
  apply Static.Expr.renamed_self
  intro name _
  by_cases generated : ∃ index : Nat, name = stem ++ index.repr
  · obtain ⟨index, rfl⟩ := generated
    exact .inl ⟨index, index, rfl, rfl, rfl⟩
  · exact .inr ⟨rfl, not_exists.mp generated⟩

private theorem refl_tys (ty : Ty) : refl.Tys stem ty ty :=
  Ty.like_self (fun width _ => refl_conditions width) fun _ _ => ⟨rfl, rfl⟩

private theorem refl_rejection (rejection : Rejection) :
    rejection.Like (refl.Tys stem) (refl.Conditions stem) rejection where
  span := rfl
  cause := by
    cases rejection.cause with
    | typeMismatch found expected => exact .typeMismatch (refl_tys found) (refl_tys expected)
    | contradiction condition => exact .contradiction (refl_conditions condition)
    | argsArity found expected => exact .argsArity found expected
    | paramsArity found expected => exact .paramsArity found expected
    | resultArity found expected => exact .resultArity found expected
    | kindMismatch found expected => exact .kindMismatch found expected
    | unboundNode name => exact .unboundNode name
    | unboundWire name => exact .unboundWire name

end Renaming

namespace Circuit

variable {settings : CheckSettings} {nodes : List Node}

/-- A program that is not accepted is rejected with one diagnostic. -/
theorem exists_rejection {error : NodeError} {final : Checker}
    (failed : checkProgram settings nodes = .error error final) :
    error = .reported ∧ ∃ owner ∈ nodes, ∃ rejection : Rejection,
      final.reported = [rejection.toDiagnostic owner.id] := by
  have verdict := reportsOnce_checkProgram settings nodes
  rw [failed] at verdict
  cases verdict with
  | @rejected _ _ failing _ _ _ _ rejection _ split _ _ finished once =>
      obtain rfl := Except.ok.inj ((rejection.draft_finish failing.id).symm.trans finished)
      exact ⟨rfl, failing, by simp [split], rejection, once⟩

/-- **Nodes do not interfere.**  Take an accepted node that no other node calls out of a program in
which no generated width is named.  The rest of the program is accepted exactly if it was before,
and its typed nodes are the same up to one renaming of generated widths and type variables; or both
programs are rejected, because of the same node, at the same place and for reasons of the same
kind. -/
theorem checkProgram_without {before after : List Node} {node : Node}
    (spared : ∀ other ∈ before ++ node :: after, other.Spares settings.widthStem)
    (accepted : ∀ earlier middle, checkProgram settings before = .ok earlier middle →
      ∃ typed next, node.check middle = .ok typed next)
    (apart : ∀ other ∈ before ++ after, ∀ call ∈ other.body.calls, call.node ≠ node.id.name) :
    ∃ renames : Renaming,
      (∃ typeds others final otherFinal,
        checkProgram settings (before ++ after) = .ok typeds final ∧
        checkProgram settings (before ++ node :: after) = .ok others otherFinal ∧
        List.Forall₂ (Typed.Node.Like (renames.Tys settings.widthStem)
          (renames.Conditions settings.widthStem)) typeds (others.eraseIdx before.length)) ∨
      ∃ owner ∈ before ++ after, ∃ (rejection other : Rejection) (final otherFinal : Checker),
        checkProgram settings (before ++ after) = .error .reported final ∧
        checkProgram settings (before ++ node :: after) = .error .reported otherFinal ∧
        final.reported = [rejection.toDiagnostic owner.id] ∧
        otherFinal.reported = [other.toDiagnostic owner.id] ∧
        rejection.Like (renames.Tys settings.widthStem) (renames.Conditions settings.widthStem)
          other := by
  unfold checkProgram
  rw [checkNodes_append, checkNodes_append]
  cases beforeRun : checkNodes before (.start settings) with
  | error error final =>
      obtain ⟨rfl, owner, member, rejection, reported⟩ := exists_rejection beforeRun
      refine ⟨.refl, .inr ⟨owner, List.mem_append_left _ member, rejection, rejection, final, final,
        bind_of_error beforeRun, bind_of_error beforeRun, reported, reported, ?_⟩⟩
      exact Renaming.refl_rejection rejection
  | ok earlier middle =>
      obtain ⟨sparedBefore, sparedRest⟩ := List.forall_mem_append.mp spared
      obtain ⟨sparedNode, sparedAfter⟩ := List.forall_mem_cons.mp sparedRest
      obtain ⟨_, apartAfter⟩ := List.forall_mem_append.mp apart
      obtain ⟨regular, _, settled⟩ :=
        (Checker.start_regular settings).checkNodes before sparedBefore beforeRun
      obtain ⟨typed, next, nodeRun⟩ := accepted earlier middle beforeRun
      have oneMore := regular.oneMore sparedNode nodeRun
      have inStep := oneMore.checkNodes after sparedAfter apartAfter
      have length : earlier.length = before.length := by
        obtain ⟨newest, _, sameNodes, sameTypeds⟩ := checkNodes_history before .start beforeRun
        have nodesLength := congrArg List.length sameNodes
        have typedsLength := congrArg List.length sameTypeds
        simp only [List.length_map, List.length_reverse] at nodesLength typedsLength
        omega
      rw [bind_of_ok beforeRun, bind_of_ok beforeRun]
      refine ⟨oneMore.renames, ?_⟩
      generalize afterRun : checkNodes after middle = outcome at inStep
      generalize restRun : checkNodes after next = otherOutcome at inStep
      have withNode : ∀ typeds final, checkNodes after next = .ok typeds final →
          checkNodes (node :: after) middle = .ok (typed :: typeds) final := by
        intro typeds final run
        rw [checkNodes, List.mapM_cons, bind_of_ok nodeRun]
        exact bind_of_ok run
      cases inStep with
      | @returned typeds others final otherFinal each =>
          refine .inl ⟨_, _, final, otherFinal, bind_of_ok afterRun,
            bind_of_ok (withNode _ _ restRun), ?_⟩
          rw [List.eraseIdx_append_of_length_le (Nat.le_of_eq length), length, Nat.sub_self]
          have front : List.Forall₂ (Typed.Node.Like (oneMore.renames.Tys settings.widthStem)
              (oneMore.renames.Conditions settings.widthStem)) earlier earlier :=
            List.forall₂_same.mpr fun other member => (settled other member).like_resuming
          exact List.rel_append front each
      | @failed error otherError final otherFinal stopped =>
          obtain ⟨rfl, rfl, owner, member, rejection, other, first, second, like⟩ := stopped
          have withNode : checkNodes (node :: after) middle = .error .reported otherFinal := by
            rw [checkNodes, List.mapM_cons, bind_of_ok nodeRun]
            exact bind_of_error restRun
          exact .inr ⟨owner, List.mem_append_right _ member, rejection, other, final, otherFinal,
            bind_of_error afterRun, bind_of_error withNode, first, second, like⟩

/-- Two nodes with and without a third between them that generates widths of its own. -/
theorem checkProgram_without_rotate :
    (∀ other ∈ [twice] ++ Node.rotate :: [thrice], other.Spares "$w") ∧
    (∀ earlier middle, checkProgram {} [twice] = .ok earlier middle →
      ∃ typed next, Node.rotate.check middle = .ok typed next) ∧
    (∀ other ∈ [twice] ++ [thrice], ∀ call ∈ other.body.calls, call.node ≠ "rotate") ∧
    ∃ (renames : Renaming) (typeds others : List Typed.Node) (final otherFinal : Checker),
      checkProgram {} [twice, thrice] = .ok typeds final ∧
      checkProgram {} [twice, Node.rotate, thrice] = .ok others otherFinal ∧
      List.Forall₂ (Typed.Node.Like (renames.Tys "$w") (renames.Conditions "$w")) typeds
        (others.eraseIdx 1) := by
  have spared : ∀ other ∈ [twice] ++ Node.rotate :: [thrice], other.Spares "$w" := by
    have overOwn : ∀ other ∈ [twice] ++ Node.rotate :: [thrice], other.OverParams := by
      simp [Node.OverParams, Node.statics, twice, Node.rotate, thrice, DeclaredTy.statics,
        DeclaredTy.toTy, Ty.widths, Block.statics, Local.statics, Expr.statics, Expr.staticsAll,
        Operator.statics, Static.Expr.mentions, Node.paramNames]
    have apart : ∀ other ∈ [twice] ++ Node.rotate :: [thrice], ∀ param ∈ other.paramNames,
        "$w".toList.isPrefixOf param.toList = false := by
      decide
    exact fun other member => (overOwn other member).spares (apart other member)
  have accepted : ∀ earlier middle, checkProgram {} [twice] = .ok earlier middle →
      ∃ typed next, Node.rotate.check middle = .ok typed next := by
    intro earlier middle first
    have computed : checkedAs (fun typeds _ => typeds.length) {} ([twice] ++ [Node.rotate]) = some 2 := by
      decide +kernel
    obtain ⟨typeds, final, both, _⟩ := exists_of_checkedAs computed
    rw [checkProgram, checkNodes_append] at both
    obtain ⟨front, state, frontRun, both⟩ := exists_of_bind_ok both
    obtain ⟨rest, last, restRun, _⟩ := exists_of_bind_ok both
    cases first.symm.trans frontRun
    rw [checkNodes, List.mapM_cons] at restRun
    obtain ⟨typed, next, run, _⟩ := exists_of_bind_ok restRun
    exact ⟨typed, next, run⟩
  have apart : ∀ other ∈ [twice] ++ [thrice], ∀ call ∈ other.body.calls,
      call.node ≠ "rotate" := by
    simp [twice, thrice, Block.calls, Expr.calls, Expr.callsAll]
  refine ⟨spared, accepted, apart, ?_⟩
  have computed : checkedAs (fun typeds _ => typeds.length) {} [twice, thrice] = some 2 := by
    decide +kernel
  obtain ⟨typeds, final, run, _⟩ := exists_of_checkedAs computed
  obtain ⟨renames, same | ⟨_, _, _, _, _, _, rejected, _⟩⟩ :=
    checkProgram_without spared accepted apart
  · exact ⟨renames, same⟩
  · cases run.symm.trans rejected

end Circuit

end CircuitWidths
