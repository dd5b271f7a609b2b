import CircuitWidths.Proofs.Check.Regimes
import CircuitWidths.Proofs.Check.Tasks

/-!
# Regimes at every moment

What a task works on keeps to a regime (`Task.KeepsTo`) if the types, the scope and the source that
it is given do so.  A task that keeps to the regime in a state that does so leaves such a state
behind (`Task.after_keepsTo`), and so do all tasks that it involves (`Task.Involves.keepsTo`).  Hence
the regime is kept at every moment (`Task.During.keepsTo`).
-/

namespace CircuitWidths

open CheckM Circuit

variable {regime : Regime} {origin : TypeStore} {checker next : Checker}

/-! ## Turns -/

/-- What the steps for all items preserve is true when the turn of an item comes. -/
theorem Preserves.at_turn {ε σ α β : Type} {each : α → EStateM ε σ β} {goesOn : β → Prop}
    {items : List α} {state reached : σ} {item : α} {invariant : σ → Prop} {returns : β → Prop}
    (preserves : ∀ other ∈ items, Preserves invariant (each other) returns)
    (turn : Turn each goesOn items state item reached) (holds : invariant state) :
    item ∈ items ∧ invariant reached :=
  turn.keeps (fun other inside middle kept _ _ run =>
    ((preserves other inside middle kept).returned run).1) holds

/-- When the turn of a node comes, the state was reached by the checks of those before it. -/
theorem Turn.reached {goesOn : Typed.Node → Prop} {nodes : List Node} {node : Node}
    (turn : Turn Node.check goesOn nodes checker node next) (reached : checker.Reached) :
    node ∈ nodes ∧ next.Reached := by
  have step : ∀ other ∈ nodes, ∀ middle : Checker, middle.Reached →
      ∀ typed last, Node.check other middle = .ok typed last → last.Reached := by
    intro other _ middle reached typed last run
    have checked := reached.check other
    rwa [run] at checked
  exact turn.keeps step reached

/-- When the turn of an item comes, the state keeps to the regime. -/
theorem Stays.at_turn {α β : Type} {each : α → CheckM β} {goesOn : β → Prop} {items : List α}
    {item : α} {returns : α → β → Checker → Prop}
    (stays : ∀ other ∈ items, ∀ middle : Checker, middle.KeepsTo regime origin →
      checker.Proceeds middle →
      Stays (regime.standard origin).toCourse (each other) middle (returns other))
    (turn : Turn each goesOn items checker item next) (kept : checker.KeepsTo regime origin) :
    item ∈ items ∧ next.KeepsTo regime origin ∧ checker.Proceeds next := by
  have step : ∀ other ∈ items, ∀ middle : Checker,
      middle.KeepsTo regime origin ∧ checker.Proceeds middle →
      ∀ value last, each other middle = .ok value last →
        last.KeepsTo regime origin ∧ checker.Proceeds last := by
    intro other inside middle ⟨middleKept, proceeds⟩ value last run
    obtain ⟨lastKept, further, _⟩ :=
      (stays other inside middle middleKept proceeds).returned_keepsTo middleKept run
    exact ⟨lastKept, proceeds.trans further⟩
  exact turn.keeps step ⟨kept, .refl _⟩

private theorem Typed.Expr.Conforms.args_conform {form : Static.Expr → Prop} {expr : Typed.Expr}
    (conforms : expr.Conforms origin form) : ∀ arg ∈ expr.args, arg.Conforms origin form := by
  cases expr with
  | const span ty value | wire span ty name =>
      intro arg inside
      cases inside
  | apply span ty operator args | call span ty node statics args =>
      exact (Typed.Expr.forall_tys_node.mp conforms).2

namespace Task

/-- What the task works on keeps to the regime. -/
def KeepsTo (regime : Regime) (origin : TypeStore) : Task → Checker → Prop
  | .represent _ ty, checker | .resolve _ ty, checker | .search _ _ ty, checker =>
    ty.Conforms origin (regime.width checker.nextWidth)
  | .bind id ty, checker =>
    origin.size ≤ id.index ∧ ty.Conforms origin (regime.width checker.nextWidth)
  | .unify _ found expected, checker | .unifyAt _ found expected, checker =>
    found.Conforms origin (regime.width checker.nextWidth) ∧
      expected.Conforms origin (regime.width checker.nextWidth)
  | .generate, _ => True
  | .ofOperator _ operator, _ => ∀ static ∈ operator.statics, regime.Operand static
  | .demand conditions, checker =>
    ∀ condition ∈ conditions, regime.condition checker.nextWidth condition
  | .infer env expr, checker =>
    (regime.standard origin).Scope checker env ∧
      ∀ static ∈ expr.statics, regime.Operand static
  | .inferAll env args expected, checker =>
    (regime.standard origin).Scope checker env ∧
      (∀ arg ∈ args, ∀ static ∈ arg.statics, regime.Operand static) ∧
      ∀ ty ∈ expected, ty.Conforms origin (regime.width checker.nextWidth)
  | .checkEquation env equation, checker =>
    (regime.standard origin).Scope checker env ∧
      ∀ static ∈ equation.value.statics, regime.Operand static
  | .declare env locals, checker =>
    (regime.standard origin).Scope checker env ∧
      ∀ wire ∈ locals, ∀ width ∈ wire.statics, ∀ count, regime.width count width
  | .assume env condition, checker =>
    (regime.standard origin).Scope checker env ∧ regime.Guard condition ∧
      condition.HasKind .bool
  | .checkBlock env block, checker =>
    (regime.standard origin).Scope checker env ∧ regime.toDiscipline.Governs block
  | .declarePort port, _ => ∀ width ∈ port.declared.statics, ∀ count, regime.width count width
  | .declarePorts ports, _ =>
    ∀ port ∈ ports, ∀ width ∈ port.declared.statics, ∀ count, regime.width count width
  | .finishExpr expr, checker => expr.Conforms origin (regime.width checker.nextWidth)
  | .finishBlock block, checker => block.Conforms origin (regime.width checker.nextWidth)
  | .finishWires wires, checker =>
    ∀ wire ∈ wires, wire.ty.Conforms origin (regime.width checker.nextWidth)
  | .solve _, _ => True
  | .introduce node, checker | .checkDefinition node, checker | .checkNode node, checker =>
    node.KeepsTo regime ∧ checker.types.WellFormed
  | .conclude node inputs outputs body, checker =>
    node.Finishable regime origin inputs outputs body checker
  | .checkNodes nodes, checker =>
    (∀ node ∈ nodes, node.KeepsTo regime) ∧ checker.types.WellFormed

/-! ## What tasks leave behind -/

private theorem storing_keepsTo {α : Type} {step : StoreM α} {returns : α → Prop}
    (kept : checker.KeepsTo regime origin)
    (preserves : Preserves (TypeStore.Conforms origin (regime.width checker.nextWidth)) step
      returns) : (finalState (onTypes step checker)).KeepsTo regime origin := by
  exact (Discipline.onTypes_stays preserves kept.conforms).after_keepsTo kept

private theorem unifying_keepsTo {step : UnifyM Unit} (kept : checker.KeepsTo regime origin)
    (preserves : Preserves (Unification.Conforms origin (regime.width checker.nextWidth)
      (regime.condition checker.nextWidth)) step fun _ => True) :
    Checker.KeepsTo regime origin
      { checker with toUnification := finalState (step checker.toUnification) } :=
  kept.unifying ((preserves _ kept.conforms.state).final _ (fun _ _ returned => returned.1)
    fun _ _ failed => failed)

/-- The arguments of an operator or a call stay on course wherever they stand. -/
theorem args_stayAnywhere {env : Env} {args : List Circuit.Expr}
    (written : ∀ arg ∈ args, ∀ static ∈ arg.statics, regime.Operand static) :
    ∀ arg ∈ args, env.StaysAnywhere (regime.standard origin) arg :=
  fun arg inside => Env.infer_stays (regime.kept origin) (regime.generates origin)
    (Discipline.operands (written arg inside))

/-- That there are more arguments than types, or fewer, does not lead out of a regime. -/
theorem paired (args : List Circuit.Expr) (expected : List Ty) :
    Env.Paired (regime.standard origin) args expected :=
  .inr fun conforms => ⟨conforms, .refl _⟩

private theorem after_keepsTo {task : Task} (keeps : task.KeepsTo regime origin checker)
    (kept : checker.KeepsTo regime origin) : (task.after checker).KeepsTo regime origin := by
  have conforms := kept.conforms
  have equates := regime.equates checker.nextWidth
  have one := regime.literal checker.nextWidth 1
  cases task with
  | represent limit ty =>
      exact storing_keepsTo kept (TypeStore.representativeWithin_preserves limit keeps)
  | resolve limit ty =>
      exact storing_keepsTo kept (TypeStore.resolveWithin_preserves limit keeps)
  | search id limit ty =>
      exact storing_keepsTo kept (TypeStore.occursWithin_preserves limit keeps)
  | bind id ty => exact unifying_keepsTo kept (Unification.bindVar_preserves keeps.1 keeps.2)
  | unify limit found expected =>
      exact unifying_keepsTo kept
        (Unification.unifyWithin_preserves equates one limit keeps.1 keeps.2)
  | unifyAt span found expected =>
      exact (Discipline.unifyAt_stays conforms keeps.1 keeps.2).after_keepsTo kept
  | generate => exact (regime.generates origin 1 conforms).after_keepsTo kept
  | ofOperator span operator =>
      exact (Rule.ofOperator_stays (regime.kept origin) (regime.generates origin) span
        (Discipline.operands keeps) conforms).after_keepsTo kept
  | demand conditions =>
      exact (Rule.emitAll_stays (regime.kept origin) conforms keeps).after_keepsTo kept
  | infer env expr =>
      exact (Env.infer_stays (regime.kept origin) (regime.generates origin)
        (Discipline.operands keeps.2) conforms kept.answers keeps.1).after_keepsTo kept
  | inferAll env args expected =>
      obtain ⟨scope, written, expectedConform⟩ := keeps
      exact (Env.inferAll_stays (regime.kept origin) (args_stayAnywhere written)
        (paired args expected) conforms kept.answers scope expectedConform).after_keepsTo kept
  | checkEquation env equation =>
      exact (Env.checkEquation_stays (regime.kept origin) (regime.generates origin)
        (Discipline.operands keeps.2) conforms kept.answers keeps.1).after_keepsTo kept
  | declare env locals =>
      exact (Env.declare_stays (regime.kept origin)
        (fun wire inside => Discipline.written (keeps.2 wire inside)) conforms keeps.1).after_keepsTo
        kept
  | assume env condition =>
      obtain ⟨scope, guard, kind⟩ := keeps
      exact (Env.assume_stays (regime.kept origin) guard.standard kind conforms
        scope).after_keepsTo kept
  | checkBlock env block =>
      exact (Discipline.checkBlock_stays keeps.2 kept.closed kept.covers conforms
        keeps.1).after_keepsTo kept
  | declarePort port =>
      exact (Port.declare_stays (regime.kept origin) (Discipline.written keeps)
        conforms).after_keepsTo kept
  | declarePorts ports =>
      exact (Port.declareAll_stays (regime.kept origin)
        (fun port inside => Discipline.written (keeps port inside)) conforms).after_keepsTo kept
  | finishExpr expr => exact storing_keepsTo kept (Typed.Expr.Conforms.resolve keeps)
  | finishBlock block => exact storing_keepsTo kept (Typed.Block.Conforms.resolve keeps)
  | finishWires wires =>
      exact (Typed.Wire.resolveAll_stays (regime.kept origin) conforms keeps).after_keepsTo kept
  | solve node =>
      show (finalState (node.solvePending checker)).KeepsTo regime origin
      rw [Node.solvePending_final]
      exact kept.drained
  | introduce node =>
      apply (Node.introduce_keepsTo keeps.1 keeps.2 kept).final
      · exact fun _ _ introduced => introduced.1
      · exact fun _ _ impossible => impossible.elim
  | conclude node inputs outputs body => exact Node.conclude_keepsTo keeps kept
  | checkDefinition node => exact Node.checkDefinition_keepsTo keeps.1 keeps.2 kept
  | checkNode node =>
      apply (Node.check_keepsTo keeps.1 checker ⟨kept, keeps.2⟩).final
      · exact fun _ _ returned => returned.1.1
      · exact fun _ _ failed => failed.1
  | checkNodes nodes =>
      have each : ∀ node ∈ nodes, Preserves (fun checker => checker.KeepsTo regime origin ∧
          checker.types.WellFormed) node.check fun _ => True :=
        fun node inside => Node.check_keepsTo (keeps.1 node inside)
      apply (Preserves.mapM each checker ⟨kept, keeps.2⟩).final
      · exact fun _ _ returned => returned.1.1
      · exact fun _ _ failed => failed.1

/-! ## What tasks involve -/

variable {outer inner : Task} {before begun : Checker}

/-- Following links from a type keeps to the regime. -/
theorem representative_keepsTo {ty head : Ty} {types : TypeStore}
    (kept : checker.KeepsTo regime origin)
    (tyConforms : ty.Conforms origin (regime.width checker.nextWidth))
    (run : TypeStore.representative ty checker.types = .ok head types) :
    head.Conforms origin (regime.width checker.nextWidth) ∧
      Checker.KeepsTo regime origin { checker with types := types } := by
  have ends := TypeStore.representative_preserves tyConforms _ kept.conforms.state.types
  obtain ⟨typesConform, headConforms⟩ := ends.returned run
  exact ⟨headConforms, kept.storing typesConform⟩

/-- The turn of a member of a product comes in a state that keeps to the regime. -/
theorem member_keepsTo {α : Type} {each : Ty → StoreM α} {goesOn : α → Prop} {returns : α → Prop}
    {ty member : Ty} {members : List Ty} {middle types : TypeStore}
    (kept : checker.KeepsTo regime origin)
    (preserves : ∀ {ty : Ty}, ty.Conforms origin (regime.width checker.nextWidth) →
      Preserves (TypeStore.Conforms origin (regime.width checker.nextWidth)) (each ty) returns)
    (tyConforms : ty.Conforms origin (regime.width checker.nextWidth))
    (found : TypeStore.representative ty checker.types = .ok (.product members) middle)
    (turn : Turn each goesOn members middle member types) :
    member.Conforms origin (regime.width checker.nextWidth) ∧
      Checker.KeepsTo regime origin { checker with types := types } := by
  obtain ⟨headConforms, middleKept⟩ := representative_keepsTo kept tyConforms found
  have membersConform := Ty.Conforms.product_iff.mp headConforms
  obtain ⟨inside, typesConform⟩ := Preserves.at_turn
    (fun other listed => preserves (membersConform other listed)) turn
    middleKept.conforms.state.types
  exact ⟨membersConform member inside, kept.storing typesConform⟩

private theorem StoreStep.keepsTo (step : StoreStep outer before inner begun)
    (keeps : outer.KeepsTo regime origin before) (kept : before.KeepsTo regime origin) :
    inner.KeepsTo regime origin begun ∧ begun.KeepsTo regime origin := by
  cases step with
  | nextLink linked => exact ⟨kept.conforms.state.types.links _ _ linked keeps.var_made, kept⟩
  | resolveHead => exact ⟨keeps, kept⟩
  | resolveMember found turn =>
      exact (member_keepsTo kept (TypeStore.resolveWithin_preserves _) keeps found turn :)
  | searchHead => exact ⟨keeps, kept⟩
  | searchMember found turn =>
      exact (member_keepsTo kept (TypeStore.occursWithin_preserves _) keeps found turn :)

private theorem link?_conforms {form : Static.Expr → Prop} {found expected ty : Ty} {id : TyVar}
    (foundConforms : found.Conforms origin form) (expectedConforms : expected.Conforms origin form)
    (links : Unification.link? found expected = some (id, ty)) :
    origin.size ≤ id.index ∧ ty.Conforms origin form := by
  unfold Unification.link? at links
  split at links
  · split at links
    · cases links
    · cases links
      exact ⟨expectedConforms.var_made, foundConforms⟩
  · cases links
    exact ⟨expectedConforms.var_made, foundConforms⟩
  · cases links
    exact ⟨foundConforms.var_made, expectedConforms⟩
  · cases links

/-- The members of two products are made equal in states that keep to the regime. -/
theorem pair_keepsTo {limit : Nat} {lefts rights : List Ty} {pair : Ty × Ty}
    {goesOn : Unit → Prop} {state : Unification} (kept : checker.KeepsTo regime origin)
    (leftsConform : (Ty.product lefts).Conforms origin (regime.width checker.nextWidth))
    (rightsConform : (Ty.product rights).Conforms origin (regime.width checker.nextWidth))
    (turn : Turn (fun pair : Ty × Ty => Unification.unifyWithin limit pair.1 pair.2) goesOn
      (lefts.zip rights) checker.toUnification pair state) :
    (pair.1.Conforms origin (regime.width checker.nextWidth) ∧
      pair.2.Conforms origin (regime.width checker.nextWidth)) ∧
      Checker.KeepsTo regime origin { checker with toUnification := state } := by
  have each : ∀ other ∈ lefts.zip rights,
      other.1.Conforms origin (regime.width checker.nextWidth) ∧
        other.2.Conforms origin (regime.width checker.nextWidth) := by
    intro other inside
    obtain ⟨inLefts, inRights⟩ := List.of_mem_zip inside
    exact ⟨Ty.Conforms.product_iff.mp leftsConform _ inLefts,
      Ty.Conforms.product_iff.mp rightsConform _ inRights⟩
  obtain ⟨inside, stateConforms⟩ := Preserves.at_turn
    (fun other listed => Unification.unifyWithin_preserves (regime.equates checker.nextWidth)
      (regime.literal checker.nextWidth 1) limit (each other listed).1 (each other listed).2)
    turn kept.conforms.state
  exact ⟨each pair inside, kept.unifying stateConforms⟩

/-- After a mismatch the state keeps to the regime. -/
theorem mismatch_keepsTo {found expected : Ty} {error : UnifyError} {state : Unification}
    (foundConforms : found.Conforms origin (regime.width checker.nextWidth))
    (expectedConforms : expected.Conforms origin (regime.width checker.nextWidth))
    (kept : checker.KeepsTo regime origin)
    (differ : Unification.unify found expected checker.toUnification = .error error state) :
    Checker.KeepsTo regime origin { checker with toUnification := state } :=
  kept.unifying ((Unification.unify_preserves (regime.equates checker.nextWidth)
    (regime.literal checker.nextWidth 1) foundConforms expectedConforms _
    kept.conforms.state).failed differ)

private theorem UnifyStep.keepsTo (step : UnifyStep outer before inner begun)
    (keeps : outer.KeepsTo regime origin before) (kept : before.KeepsTo regime origin) :
    inner.KeepsTo regime origin begun ∧ begun.KeepsTo regime origin := by
  cases step with
  | bindSearch => exact ⟨keeps.2, kept⟩
  | unifyFound => exact ⟨keeps.1, kept⟩
  | unifyExpected foundRun => exact ⟨keeps.2, (representative_keepsTo kept keeps.1 foundRun).2⟩
  | unifyLink foundRun expectedRun links =>
      obtain ⟨foundConforms, middleKept⟩ := representative_keepsTo kept keeps.1 foundRun
      obtain ⟨expectedConforms, lastKept⟩ := representative_keepsTo middleKept keeps.2 expectedRun
      exact ⟨link?_conforms foundConforms expectedConforms links, lastKept⟩
  | unifyMembers foundRun expectedRun _ turn =>
      obtain ⟨foundConforms, middleKept⟩ := representative_keepsTo kept keeps.1 foundRun
      obtain ⟨expectedConforms, lastKept⟩ := representative_keepsTo middleKept keeps.2 expectedRun
      exact (pair_keepsTo lastKept foundConforms expectedConforms turn :)
  | unifyFirst => exact ⟨keeps, kept⟩
  | mismatchFound differ => exact ⟨keeps.1, mismatch_keepsTo keeps.1 keeps.2 kept differ⟩
  | mismatchExpected differ foundRun =>
      have middleKept := mismatch_keepsTo keeps.1 keeps.2 kept differ
      obtain ⟨lastKept, proceeds, _⟩ :=
        (Discipline.resolve_stays middleKept.conforms keeps.1).returned_keepsTo middleKept foundRun
      exact ⟨keeps.2.later proceeds, lastKept⟩

/-- What is written in an operator or a call, and what is written in its arguments. -/
theorem written_split {own : List Static.Expr} {args : List Circuit.Expr}
    (written : ∀ static ∈ own ++ Circuit.Expr.staticsAll args, regime.Operand static) :
    (∀ static ∈ own, regime.Operand static) ∧
      ∀ arg ∈ args, ∀ static ∈ arg.statics, regime.Operand static := by
  obtain ⟨inOwn, inArgs⟩ := List.forall_mem_append.mp written
  refine ⟨inOwn, fun arg inside static mentioned => inArgs static ?_⟩
  exact Circuit.Expr.mem_staticsAll.mpr ⟨arg, inside, mentioned⟩

private theorem ofOperator_keepsTo {span : Source.Span} {operator : Operator}
    (written : ∀ static ∈ operator.statics, regime.Operand static)
    (kept : checker.KeepsTo regime origin) :
    Stays (regime.standard origin).toCourse (Rule.ofOperator span operator) checker
      fun rule next => rule.Allowed (regime.standard origin) next :=
  Rule.ofOperator_stays (regime.kept origin) (regime.generates origin) span
    (Discipline.operands written) kept.conforms

private theorem ofCall_keepsTo {span : Source.Span} {node : Ident} {statics : List Static.Expr}
    (written : ∀ static ∈ statics, regime.Operand static) (kept : checker.KeepsTo regime origin) :
    Stays (regime.standard origin).toCourse (Rule.ofCall span node statics) checker
      fun rule next => rule.Allowed (regime.standard origin) next :=
  Rule.ofCall_stays (regime.kept origin) span node (Discipline.operands written) kept.conforms
    kept.answers

private theorem inferAll_keepsTo {env : Env} {args : List Circuit.Expr} {expected : List Ty}
    {typedArgs : List Typed.Expr} (keeps : (Task.inferAll env args expected).KeepsTo regime origin
      checker) (kept : checker.KeepsTo regime origin)
    (run : env.inferAll args expected checker = .ok typedArgs next) :
    next.KeepsTo regime origin ∧ checker.Proceeds next := by
  obtain ⟨scope, written, expectedConform⟩ := keeps
  obtain ⟨nextKept, proceeds, _⟩ := (Env.inferAll_stays (regime.kept origin)
    (args_stayAnywhere written) (paired args expected) kept.conforms kept.answers scope
    expectedConform).returned_keepsTo kept run
  exact ⟨nextKept, proceeds⟩

/-- Once its rule is known, an operator or a call has arguments that keep to the regime. -/
theorem ruled_keepsTo {env : Env} {args : List Circuit.Expr} {rule : Rule}
    (scope : (regime.standard origin).Scope checker env)
    (written : ∀ arg ∈ args, ∀ static ∈ arg.statics, regime.Operand static)
    (proceeds : checker.Proceeds next) (allowed : rule.Allowed (regime.standard origin) next) :
    (Task.inferAll env args rule.inputs).KeepsTo regime origin next :=
  ⟨scope.later proceeds, written, allowed.inputs⟩

private theorem infer_keepsTo {env : Env} {expr : Circuit.Expr} {typed : Typed.Expr}
    (scope : (regime.standard origin).Scope checker env)
    (written : ∀ static ∈ expr.statics, regime.Operand static)
    (kept : checker.KeepsTo regime origin) (run : env.infer expr checker = .ok typed next) :
    next.KeepsTo regime origin ∧ checker.Proceeds next ∧
      typed.ty.Conforms origin (regime.width next.nextWidth) := by
  obtain ⟨nextKept, proceeds, typedConforms⟩ := (Env.infer_stays (regime.kept origin)
    (regime.generates origin) (Discipline.operands written) kept.conforms kept.answers
    scope).returned_keepsTo kept run
  exact ⟨nextKept, proceeds, typedConforms _ typed.ty_mem_tys⟩

private theorem ExprStep.keepsTo (step : ExprStep outer before inner begun)
    (keeps : outer.KeepsTo regime origin before) (kept : before.KeepsTo regime origin) :
    inner.KeepsTo regime origin begun ∧ begun.KeepsTo regime origin := by
  cases step with
  | operatorWidth _ _ earlier =>
      exact ⟨trivial, ((regime.generates origin _ kept.conforms).returned_keepsTo kept earlier).1⟩
  | demandNext emitted =>
      obtain ⟨first, rest⟩ := List.forall_mem_cons.mp keeps
      obtain ⟨nextKept, proceeds, _⟩ :=
        ((regime.kept origin).emit kept.conforms first).returned_keepsTo kept emitted
      exact ⟨fun condition inside =>
        regime.condition_mono proceeds.nextWidth (rest condition inside), nextKept⟩
  | applyRule => exact ⟨(written_split keeps.2).1, kept⟩
  | applyArgs ruled _ =>
      obtain ⟨own, written⟩ := written_split keeps.2
      obtain ⟨nextKept, proceeds, allowed⟩ :=
        (ofOperator_keepsTo own kept).returned_keepsTo kept ruled
      exact ⟨ruled_keepsTo keeps.1 written proceeds allowed, nextKept⟩
  | applyDemand ruled _ argsRun =>
      obtain ⟨own, written⟩ := written_split keeps.2
      obtain ⟨middleKept, proceeds, allowed⟩ :=
        (ofOperator_keepsTo own kept).returned_keepsTo kept ruled
      obtain ⟨nextKept, further⟩ := inferAll_keepsTo
        (ruled_keepsTo keeps.1 written proceeds allowed) middleKept argsRun
      exact ⟨(allowed.later further).conditions, nextKept⟩
  | callArgs ruled _ =>
      obtain ⟨own, written⟩ := written_split keeps.2
      obtain ⟨nextKept, proceeds, allowed⟩ := (ofCall_keepsTo own
        kept).returned_keepsTo kept ruled
      exact ⟨ruled_keepsTo keeps.1 written proceeds allowed, nextKept⟩
  | callDemand ruled _ argsRun =>
      obtain ⟨own, written⟩ := written_split keeps.2
      obtain ⟨middleKept, proceeds, allowed⟩ := (ofCall_keepsTo own
        kept).returned_keepsTo kept ruled
      obtain ⟨nextKept, further⟩ := inferAll_keepsTo
        (ruled_keepsTo keeps.1 written proceeds allowed) middleKept argsRun
      exact ⟨(allowed.later further).conditions, nextKept⟩
  | firstArg =>
      exact ⟨⟨keeps.1, (List.forall_mem_cons.mp keeps.2.1).1⟩, kept⟩
  | firstArgTy argRun =>
      obtain ⟨scope, written, expectedConform⟩ := keeps
      obtain ⟨nextKept, proceeds, tyConforms⟩ :=
        infer_keepsTo scope (List.forall_mem_cons.mp written).1 kept argRun
      exact ⟨⟨tyConforms, (List.forall_mem_cons.mp expectedConform).1.later proceeds⟩, nextKept⟩
  | otherArgs argRun tyRun =>
      obtain ⟨scope, written, expectedConform⟩ := keeps
      obtain ⟨firstWritten, restWritten⟩ := List.forall_mem_cons.mp written
      obtain ⟨firstConforms, restConform⟩ := List.forall_mem_cons.mp expectedConform
      obtain ⟨middleKept, inferProceeds, tyConforms⟩ :=
        infer_keepsTo scope firstWritten kept argRun
      obtain ⟨nextKept, unifyProceeds, _⟩ := (Discipline.unifyAt_stays middleKept.conforms
        tyConforms (firstConforms.later inferProceeds)).returned_keepsTo middleKept tyRun
      have proceeds := inferProceeds.trans unifyProceeds
      exact ⟨⟨scope.later proceeds, restWritten,
        fun ty inside => (restConform ty inside).later proceeds⟩, nextKept⟩

private theorem freshTy_keepsTo {ty : Ty} (kept : checker.KeepsTo regime origin)
    (made : freshTy checker = .ok ty next) :
    next.KeepsTo regime origin ∧ checker.Proceeds next ∧
      ty.Conforms origin (regime.width next.nextWidth) :=
  ((regime.kept origin).freshTy kept.conforms).returned_keepsTo kept made

private theorem BodyStep.keepsTo (step : BodyStep outer before inner begun)
    (keeps : outer.KeepsTo regime origin before) (kept : before.KeepsTo regime origin) :
    inner.KeepsTo regime origin begun ∧ begun.KeepsTo regime origin := by
  cases step with
  | equationValue patternRun =>
      obtain ⟨nextKept, proceeds, _⟩ :=
        (Env.patternTy_stays (regime.kept origin) _ kept.conforms keeps.1).returned_keepsTo kept
          patternRun
      exact ⟨⟨keeps.1.later proceeds, keeps.2⟩, nextKept⟩
  | equationTy patternRun valueRun =>
      obtain ⟨middleKept, patternProceeds, expectedConforms⟩ :=
        (Env.patternTy_stays (regime.kept origin) _ kept.conforms keeps.1).returned_keepsTo kept
          patternRun
      obtain ⟨nextKept, valueProceeds, tyConforms⟩ :=
        infer_keepsTo (keeps.1.later patternProceeds) keeps.2 middleKept valueRun
      exact ⟨⟨tyConforms, expectedConforms.later valueProceeds⟩, nextKept⟩
  | localTy made annotated =>
      obtain ⟨nextKept, _, tyConforms⟩ := freshTy_keepsTo kept made
      have written := (List.forall_mem_cons.mp keeps.2).1
      rw [Local.statics, annotated] at written
      exact ⟨⟨tyConforms, (regime.kept origin).declared (Discipline.written written · · begun)⟩,
        nextKept⟩
  | otherLocals made annotated =>
      obtain ⟨middleKept, freshProceeds, tyConforms⟩ := freshTy_keepsTo kept made
      obtain ⟨written, restWritten⟩ := List.forall_mem_cons.mp keeps.2
      obtain ⟨nextKept, annotateProceeds, _⟩ := (Env.annotate_stays (regime.kept origin)
        (Discipline.written written) middleKept.conforms tyConforms).returned_keepsTo middleKept
        annotated
      have scope := keeps.1.later (freshProceeds.trans annotateProceeds)
      exact ⟨⟨scope.insert (tyConforms.later annotateProceeds), restWritten⟩, nextKept⟩
  | assumeIn equated turn =>
      obtain ⟨scope, guard, kind⟩ := keeps
      obtain ⟨inside, nextKept, proceeds⟩ := Stays.at_turn
        (fun entry listed _ middleKept proceeds => Env.substituteEntry_stays (regime.kept origin)
          guard.standard kind equated middleKept.conforms ((scope entry listed).later proceeds))
        turn kept
      exact ⟨(scope _ inside).later proceeds, nextKept⟩
  | systemLocals => exact ⟨⟨keeps.1, keeps.2.1⟩, kept⟩
  | systemEquation declared turn =>
      obtain ⟨scope, localsWritten, equationsWritten⟩ := keeps
      obtain ⟨middleKept, _, innerScope, _⟩ := (Env.declare_stays (regime.kept origin)
        (fun wire inside => Discipline.written (localsWritten wire inside)) kept.conforms
        scope).returned_keepsTo kept declared
      obtain ⟨inside, nextKept, proceeds⟩ := Stays.at_turn
        (fun equation listed _ laterKept proceeds => Env.checkEquation_stays (regime.kept origin)
          (regime.generates origin) (Discipline.operands (equationsWritten equation listed))
          laterKept.conforms laterKept.answers (innerScope.later proceeds)) turn middleKept
      exact ⟨⟨innerScope.later proceeds, equationsWritten _ inside⟩, nextKept⟩
  | choiceAssume kind => exact ⟨⟨keeps.1, keeps.2.1, kind⟩, kept⟩
  | choiceTrue kind assumeRun =>
      obtain ⟨scope, guard, governsTrue, _⟩ := keeps
      obtain ⟨nextKept, _, assumedScope⟩ := (Env.assume_stays (regime.kept origin) guard.standard
        kind kept.conforms scope).returned_keepsTo kept assumeRun
      exact ⟨⟨assumedScope, governsTrue⟩, nextKept⟩
  | choiceFalse kind assumeRun trueRun =>
      obtain ⟨scope, guard, governsTrue, governsFalse⟩ := keeps
      obtain ⟨middleKept, assumeProceeds, assumedScope⟩ := (Env.assume_stays (regime.kept origin)
        guard.standard kind kept.conforms scope).returned_keepsTo kept assumeRun
      obtain ⟨nextKept, trueProceeds, _⟩ := (Discipline.checkBlock_stays governsTrue
        middleKept.closed middleKept.covers middleKept.conforms assumedScope).returned_keepsTo
        middleKept trueRun
      exact ⟨⟨scope.later (assumeProceeds.trans trueProceeds), governsFalse⟩, nextKept⟩

private theorem FinishStep.keepsTo (step : FinishStep outer before inner begun)
    (keeps : outer.KeepsTo regime origin before) (kept : before.KeepsTo regime origin) :
    inner.KeepsTo regime origin begun ∧ begun.KeepsTo regime origin := by
  cases step with
  | exprTy => exact ⟨Typed.Expr.Conforms.ty_conforms keeps, kept⟩
  | exprArg tyRun turn =>
      have argsConform := Typed.Expr.Conforms.args_conform keeps
      obtain ⟨middleConforms, _⟩ := (TypeStore.resolve_preserves
        (Typed.Expr.Conforms.ty_conforms keeps) _ kept.conforms.state.types).returned tyRun
      obtain ⟨inside, typesConform⟩ := Preserves.at_turn
        (fun arg listed => Typed.Expr.Conforms.resolve (argsConform arg listed)) turn middleConforms
      exact ⟨argsConform _ inside, kept.storing typesConform⟩
  | blockWire turn =>
      have wiresConform := (Typed.Block.system_conforms.mp keeps).1
      obtain ⟨inside, typesConform⟩ := Preserves.at_turn
        (fun wire listed => Typed.Wire.resolve_preserves (wiresConform wire listed)) turn
        kept.conforms.state.types
      exact ⟨wiresConform _ inside, kept.storing typesConform⟩
  | blockEquation wiresRun turn =>
      obtain ⟨wiresConform, valuesConform⟩ := Typed.Block.system_conforms.mp keeps
      obtain ⟨middleConforms, _⟩ := (Preserves.mapM (fun wire listed =>
        Typed.Wire.resolve_preserves (wiresConform wire listed)) _
        kept.conforms.state.types).returned wiresRun
      obtain ⟨inside, typesConform⟩ := Preserves.at_turn
        (fun equation listed => Typed.Equation.resolve_preserves (valuesConform equation listed))
        turn middleConforms
      exact ⟨valuesConform _ inside, kept.storing typesConform⟩
  | blockTrue => exact ⟨(Typed.Block.choice_conforms.mp keeps).1, kept⟩
  | blockFalse trueRun =>
      obtain ⟨onTrueConforms, onFalseConforms⟩ := Typed.Block.choice_conforms.mp keeps
      obtain ⟨typesConform, _⟩ :=
        (onTrueConforms.resolve _ kept.conforms.state.types).returned trueRun
      exact ⟨onFalseConforms, kept.storing typesConform⟩
  | wireTy turn =>
      obtain ⟨inside, nextKept, proceeds⟩ := Stays.at_turn
        (fun wire listed _ middleKept proceeds => Typed.Wire.resolve_stays (regime.kept origin)
          middleKept.conforms ((keeps wire listed).later proceeds)) turn kept
      exact ⟨(keeps _ inside).later proceeds, nextKept⟩

private theorem declarePorts_keepsTo {ports : List Port} {wires : List Typed.Wire}
    (written : ∀ port ∈ ports, ∀ width ∈ port.declared.statics, ∀ count,
      regime.width count width) (kept : checker.KeepsTo regime origin)
    (run : ports.mapM Port.declare checker = .ok wires next) :
    next.KeepsTo regime origin ∧ checker.Proceeds next ∧
      ∀ wire ∈ wires, wire.ty.Conforms origin (regime.width next.nextWidth) :=
  (Port.declareAll_stays (regime.kept origin)
    (fun port inside => Discipline.written (written port inside)) kept.conforms).returned_keepsTo
    kept run

private theorem finishWires_keepsTo {wires resolved : List Typed.Wire}
    (wiresConform : ∀ wire ∈ wires, wire.ty.Conforms origin (regime.width checker.nextWidth))
    (kept : checker.KeepsTo regime origin)
    (run : (wires.mapM fun wire => onTypes wire.resolve) checker = .ok resolved next) :
    next.KeepsTo regime origin ∧ checker.Proceeds next := by
  obtain ⟨nextKept, proceeds, _⟩ :=
    (Typed.Wire.resolveAll_stays (regime.kept origin) kept.conforms wiresConform).returned_keepsTo
      kept run
  exact ⟨nextKept, proceeds⟩

private theorem finishBody_keepsTo {body resolved : Typed.Block}
    (bodyConforms : body.Conforms origin (regime.width checker.nextWidth))
    (kept : checker.KeepsTo regime origin)
    (run : onTypes body.resolve checker = .ok resolved next) :
    next.KeepsTo regime origin ∧ checker.Proceeds next := by
  obtain ⟨nextKept, proceeds, _⟩ :=
    (Discipline.onTypes_stays bodyConforms.resolve kept.conforms).returned_keepsTo kept run
  exact ⟨nextKept, proceeds⟩

private theorem NodeStep.keepsTo (step : NodeStep outer before inner begun)
    (keeps : outer.KeepsTo regime origin before) (kept : before.KeepsTo regime origin) :
    inner.KeepsTo regime origin begun ∧ begun.KeepsTo regime origin := by
  cases step with
  | portTy made =>
      obtain ⟨nextKept, _, tyConforms⟩ := freshTy_keepsTo kept made
      exact ⟨⟨tyConforms, (regime.kept origin).declared (Discipline.written keeps · · begun)⟩,
        nextKept⟩
  | portInTurn turn =>
      obtain ⟨inside, nextKept, _⟩ := Stays.at_turn (fun port listed _ middleKept _ =>
        Port.declare_stays (regime.kept origin) (Discipline.written (keeps port listed))
          middleKept.conforms) turn kept
      exact ⟨keeps _ inside, nextKept⟩
  | introduceInputs =>
      exact ⟨fun port inside => keeps.1.ports port (List.mem_append_left _ inside), kept⟩
  | introduceOutputs inputsRun =>
      obtain ⟨inputsWritten, outputsWritten⟩ := List.forall_mem_append.mp keeps.1.ports
      exact ⟨outputsWritten, (declarePorts_keepsTo inputsWritten kept inputsRun).1⟩
  | knownInputs inputsRun outputsRun =>
      obtain ⟨inputsWritten, outputsWritten⟩ := List.forall_mem_append.mp keeps.1.ports
      obtain ⟨middleKept, _, inputsConform⟩ := declarePorts_keepsTo inputsWritten kept inputsRun
      obtain ⟨nextKept, proceeds, _⟩ := declarePorts_keepsTo outputsWritten middleKept outputsRun
      exact ⟨fun wire inside => (inputsConform wire inside).later proceeds, nextKept⟩
  | knownOutputs inputsRun outputsRun knownRun =>
      obtain ⟨inputsWritten, outputsWritten⟩ := List.forall_mem_append.mp keeps.1.ports
      obtain ⟨firstKept, _, inputsConform⟩ := declarePorts_keepsTo inputsWritten kept inputsRun
      obtain ⟨secondKept, proceeds, outputsConform⟩ :=
        declarePorts_keepsTo outputsWritten firstKept outputsRun
      obtain ⟨nextKept, further⟩ := finishWires_keepsTo
        (fun wire inside => (inputsConform wire inside).later proceeds) secondKept knownRun
      exact ⟨fun wire inside => (outputsConform wire inside).later further, nextKept⟩
  | typedBody => exact ⟨keeps.body, kept⟩
  | typedInputs bodyRun =>
      obtain ⟨nextKept, proceeds⟩ := finishBody_keepsTo keeps.body kept bodyRun
      have inputsConform := (List.forall_mem_append.mp keeps.wires).1
      exact ⟨fun wire inside => (inputsConform wire inside).later proceeds, nextKept⟩
  | typedOutputs bodyRun inputsRun =>
      obtain ⟨inputsConform, outputsConform⟩ := List.forall_mem_append.mp keeps.wires
      obtain ⟨middleKept, proceeds⟩ := finishBody_keepsTo keeps.body kept bodyRun
      obtain ⟨nextKept, further⟩ := finishWires_keepsTo
        (fun wire inside => (inputsConform wire inside).later proceeds) middleKept inputsRun
      exact ⟨fun wire inside => (outputsConform wire inside).later (proceeds.trans further),
        nextKept⟩
  | solvePending bodyRun inputsRun outputsRun =>
      obtain ⟨inputsConform, outputsConform⟩ := List.forall_mem_append.mp keeps.wires
      obtain ⟨firstKept, proceeds⟩ := finishBody_keepsTo keeps.body kept bodyRun
      obtain ⟨secondKept, further⟩ := finishWires_keepsTo
        (fun wire inside => (inputsConform wire inside).later proceeds) firstKept inputsRun
      exact ⟨trivial, (finishWires_keepsTo (fun wire inside =>
        (outputsConform wire inside).later (proceeds.trans further)) secondKept outputsRun).1⟩
  | introduceNode => exact ⟨keeps, kept⟩
  | nodeBody introduceRun =>
      obtain ⟨nextKept, wires⟩ :=
        (Node.introduce_keepsTo keeps.1 keeps.2 kept).returned introduceRun
      exact ⟨⟨Standard.scope_portEnv wires, keeps.1.body⟩, nextKept⟩
  | concludeNode introduceRun bodyRun =>
      obtain ⟨nextKept, finishable⟩ :=
        (Node.checkBody_keepsTo keeps.1 keeps.2 kept introduceRun).returned bodyRun
      exact ⟨finishable, nextKept⟩
  | nodeDefinition => exact ⟨keeps, kept⟩
  | nodeInTurn turn =>
      obtain ⟨inside, nextKept, wellFormed⟩ := Preserves.at_turn
        (fun node listed => Node.check_keepsTo (keeps.1 node listed)) turn ⟨kept, keeps.2⟩
      exact ⟨⟨keeps.1 _ inside, wellFormed⟩, nextKept⟩

private theorem Involves.keepsTo (involves : Involves outer before inner begun)
    (keeps : outer.KeepsTo regime origin before) (kept : before.KeepsTo regime origin) :
    inner.KeepsTo regime origin begun ∧ begun.KeepsTo regime origin := by
  cases involves with
  | store step => exact step.keepsTo keeps kept
  | unify step => exact step.keepsTo keeps kept
  | expr step => exact step.keepsTo keeps kept
  | body step => exact step.keepsTo keeps kept
  | finish step => exact step.keepsTo keeps kept
  | node step => exact step.keepsTo keeps kept

/-- **Regimes are kept at every moment.**  A task that keeps to a regime is carried out through
tasks that do so, each of which is begun in a state that keeps to it and leaves such a state
behind. -/
theorem During.keepsTo {whole task : Task} (during : During whole checker task begun)
    (keeps : whole.KeepsTo regime origin checker) (kept : checker.KeepsTo regime origin) :
    task.KeepsTo regime origin begun ∧ begun.KeepsTo regime origin ∧
      (task.after begun).KeepsTo regime origin := by
  have step : ∀ outer before inner begun,
      KeepsTo regime origin outer before ∧ before.KeepsTo regime origin →
      Involves outer before inner begun →
      inner.KeepsTo regime origin begun ∧ begun.KeepsTo regime origin :=
    fun _ _ _ _ ⟨outerKeeps, beforeKept⟩ involves => involves.keepsTo outerKeeps beforeKept
  obtain ⟨taskKeeps, begunKept⟩ := during.keeps step ⟨keeps, kept⟩
  exact ⟨taskKeeps, begunKept, after_keepsTo taskKeeps begunKept⟩

end Task

end CircuitWidths
