import CircuitWidths.Proofs.Check.Counter
import CircuitWidths.Proofs.Check.Success
import CircuitWidths.Proofs.Check.Tasks
import Mathlib.Logic.Relation

/-!
# The order of tasks in time

A task is begun and ends, and in between the tasks that it involves are begun and end, one after
another.  `Point.Before` is this order, over all nodes that are checked in a session.  It speaks about
tasks only, not about what they do to the counter of generated widths.  The counter never falls along
it (`Point.Before.advances`): a task that generates nothing leaves it alone (`Task.after_rests`), and
for all others what is done before, during and after an inner task only adds to it
(`Task.Involves.within`).
-/

namespace CircuitWidths

open CheckM Circuit

variable {ε α β : Type} {checker reached : Checker} {motion : Motion}

private theorem Turn.moved {each : α → EStateM ε Checker β} {goesOn : β → Prop} {items : List α}
    {item : α} (turn : Turn each goesOn items checker item reached)
    (eachMoves : ∀ item, Moves motion (each item)) : motion.leads checker reached :=
  (turn.keeps (fun other _ middle sofar _ _ run =>
    motion.trans sofar ((eachMoves other middle).returned run).2.1) (motion.rests (.refl checker))).2

private theorem Turn.rested {each : α → EStateM ε Checker β} {goesOn : β → Prop} {items : List α}
    {item : α} (turn : Turn each goesOn items checker item reached)
    (eachSteady : ∀ item, Steady (each item)) :
    checker.Rests reached :=
  turn.moved eachSteady

/-- When the turn of an item is finished, what is left to do are the turns of the items behind it. -/
theorem Turn.follows {each : α → EStateM ε Checker β} {goesOn : β → Prop} {items : List α}
    {item : α} (turn : Turn each goesOn items checker item reached)
    (eachAdvancing : ∀ item, Advancing (each item)) :
    (finalState (each item reached)).Advances (finalState (items.mapM each checker)) := by
  induction turn with
  | @first item items state =>
      rw [List.mapM_cons]
      exact Advancing.follows (fun result =>
        .bind (.mapM eachAdvancing items) fun results => .pure (result :: results)) state
  | @later item other items state middle reached value run _ _ ih =>
      rw [List.mapM_cons, bind_of_ok run]
      exact ih.trans (Advancing.follows (fun results => .pure (value :: results)) middle)

/-! ## Tasks -/

namespace Task

/-- Widths may be generated while the task is carried out. -/
def MayGenerate : Task → Prop
  | .generate | .ofOperator _ _ | .infer _ _ | .inferAll _ _ _ | .checkEquation _ _
  | .checkBlock _ _ | .checkDefinition _ | .checkNode _ | .checkNodes _ => True
  | .represent _ _ | .resolve _ _ | .search _ _ _ | .bind _ _ | .unify _ _ _ | .unifyAt _ _ _
  | .demand _ | .declare _ _ | .assume _ _ | .declarePort _ | .declarePorts _ | .finishExpr _
  | .finishBlock _ | .finishWires _ | .solve _ | .introduce _ | .conclude _ _ _ _ => False

variable {outer inner task : Task} {before begun : Checker}

private theorem after_rests (quiet : ¬ task.MayGenerate) (checker : Checker) :
    checker.Rests (task.after checker) := by
  cases task with
  | represent limit ty | resolve limit ty | search id limit ty | finishExpr expr
  | finishBlock block => exact (onTypes_moves _).rests checker
  | bind id ty | unify limit found expected => exact ⟨rfl, rfl⟩
  | unifyAt span found expected => exact (unifyAt_moves _ _ _).rests checker
  | demand conditions => exact (Rule.emitAll_moves conditions).rests checker
  | declare env locals => exact (Env.declare_moves locals env).rests checker
  | assume env condition => exact (env.assume_moves condition).rests checker
  | declarePort port => exact port.declare_moves.rests checker
  | declarePorts ports => exact Moves.rests (.mapM Port.declare_moves ports) checker
  | finishWires wires => exact (resolveWires_moves wires).rests checker
  | solve node => exact node.solvePending_moves.rests checker
  | introduce node => exact node.introduce_moves.rests checker
  | conclude node inputs outputs body =>
      exact (node.conclude_moves inputs outputs body).rests checker
  | generate | ofOperator _ _ | infer _ _ | inferAll _ _ _ | checkEquation _ _ | checkBlock _ _
  | checkDefinition _ | checkNode _ | checkNodes _ => exact (quiet trivial).elim

private theorem after_advances (task : Task) (checker : Checker) :
    checker.Advances (task.after checker) := by
  by_cases generates : task.MayGenerate
  · cases task with
    | generate => exact freshWidth_advancing.advances checker
    | ofOperator span operator => exact (Rule.ofOperator_advancing span operator).advances checker
    | infer env expr => exact (env.infer_advancing expr).advances checker
    | inferAll env args expected =>
        exact (env.inferAll_advancing args expected).advances checker
    | checkEquation env equation => exact (env.checkEquation_advancing equation).advances checker
    | checkBlock env block => exact (Env.checkBlock_advancing block env).advances checker
    | checkDefinition node => exact node.checkDefinition_advancing.advances checker
    | checkNode node => exact node.check_advancing.advances checker
    | checkNodes nodes => exact Moves.advances (.mapM Node.check_advancing nodes) checker
    | represent _ _ | resolve _ _ | search _ _ _ | bind _ _ | unify _ _ _ | unifyAt _ _ _
    | demand _ | declare _ _ | assume _ _ | declarePort _ | declarePorts _ | finishExpr _
    | finishBlock _ | finishWires _ | solve _ | introduce _ | conclude _ _ _ _ =>
        exact generates.elim
  · exact (after_rests generates checker).advances

/-- Nothing has been generated when the inner task is begun, nor is anything generated during it. -/
structure Idles (before : Checker) (inner : Task) (begun : Checker) : Prop where
  rests : before.Rests begun
  quiet : ¬ inner.MayGenerate

/-- A task that generates nothing involves only such tasks. -/
theorem Involves.idles (involves : Involves outer before inner begun)
    (quiet : ¬ outer.MayGenerate) : Idles before inner begun := by
  cases involves with
  | store step =>
      cases step with
      | nextLink _ | resolveHead | searchHead => exact ⟨.refl _, id⟩
      | resolveMember _ _ | searchMember _ _ => exact ⟨⟨rfl, rfl⟩, id⟩
  | unify step =>
      cases step with
      | bindSearch | unifyFound | unifyFirst => exact ⟨.refl _, id⟩
      | unifyExpected _ | unifyLink _ _ _ | unifyMembers _ _ _ _ | mismatchFound _ =>
          exact ⟨⟨rfl, rfl⟩, id⟩
      | mismatchExpected _ foundRun =>
          have rests := (onTypes_moves _).rested foundRun
          exact ⟨⟨rests.settings, rests.nextWidth⟩, id⟩
  | expr step =>
      cases step with
      | demandNext emitted => exact ⟨(emit_moves _).rested emitted, id⟩
      | _ => exact (quiet trivial).elim
  | body step =>
      cases step with
      | localTy made _ => exact ⟨freshTy_moves.rested made, id⟩
      | otherLocals made annotated =>
          exact ⟨(freshTy_moves.rested made).trans ((Env.annotate_moves _ _).rested annotated), id⟩
      | assumeIn _ turn =>
          exact ⟨turn.rested (Env.substituteEntry_moves _), id⟩
      | _ => exact (quiet trivial).elim
  | finish step =>
      cases step with
      | exprTy | blockTrue => exact ⟨.refl _, id⟩
      | exprArg _ _ | blockWire _ | blockEquation _ _ | blockFalse _ => exact ⟨⟨rfl, rfl⟩, id⟩
      | wireTy turn => exact ⟨turn.rested fun wire => onTypes_moves wire.resolve, id⟩
  | node step =>
      cases step with
      | portTy made => exact ⟨freshTy_moves.rested made, id⟩
      | portInTurn turn => exact ⟨turn.rested Port.declare_moves, id⟩
      | introduceInputs | typedBody => exact ⟨.refl _, id⟩
      | introduceOutputs inputsRun =>
          exact ⟨Moves.rested (.mapM Port.declare_moves _) inputsRun, id⟩
      | knownInputs inputsRun outputsRun =>
          exact ⟨(Moves.rested (.mapM Port.declare_moves _) inputsRun).trans
            (Moves.rested (.mapM Port.declare_moves _) outputsRun), id⟩
      | knownOutputs inputsRun outputsRun knownRun =>
          have declared := (Moves.rested (.mapM Port.declare_moves _) inputsRun).trans
            (Moves.rested (.mapM Port.declare_moves _) outputsRun)
          exact ⟨declared.trans ((resolveWires_moves _).rested knownRun), id⟩
      | typedInputs bodyRun => exact ⟨(onTypes_moves _).rested bodyRun, id⟩
      | typedOutputs bodyRun inputsRun =>
          exact ⟨((onTypes_moves _).rested bodyRun).trans
            ((resolveWires_moves _).rested inputsRun), id⟩
      | solvePending bodyRun inputsRun outputsRun =>
          have inputsResolved := ((onTypes_moves _).rested bodyRun).trans
            ((resolveWires_moves _).rested inputsRun)
          exact ⟨inputsResolved.trans ((resolveWires_moves _).rested outputsRun), id⟩
      | _ => exact (quiet trivial).elim

/-- The inner task is begun after the outer one and ends before it. -/
structure Within (outer : Task) (before : Checker) (inner : Task) (begun : Checker) : Prop where
  begins : before.Advances begun
  ends : (inner.after begun).Advances (outer.after before)

private theorem Idles.within (idles : Idles before inner begun) (quiet : ¬ outer.MayGenerate) :
    Within outer before inner begun where
  begins := idles.rests.advances
  ends :=
    have whole := idles.rests.trans (after_rests idles.quiet begun)
    (whole.symm.trans (after_rests quiet before)).advances

/-- What is left to do when the arguments of an operator or a call are inferred. -/
theorem demand_advancing (rule : Rule) (typed : Typed.Expr) :
    Advancing (do rule.demand; pure typed : CheckM Typed.Expr) :=
  .bind (Rule.emitAll_moves rule.conditions) fun _ => .pure _

private theorem ExprStep.within (step : ExprStep outer before inner begun)
    (generates : outer.MayGenerate) : Within outer before inner begun := by
  cases step with
  | @operatorWidth _ _ span operator index widths kinds needed earlier =>
      refine ⟨(generate_advancing index).advanced earlier, ?_⟩
      show Checker.Advances (finalState (freshWidth begun))
        (finalState (Rule.ofOperator span operator before))
      rw [Rule.ofOperator_eq, bind_of_ok (expectKinds_run kinds before)]
      cases earlier
      exact ⟨rfl, Nat.add_le_add_left needed before.nextWidth⟩
  | demandNext _ => exact generates.elim
  | @applyRule _ env span operator args =>
      refine ⟨.refl _, ?_⟩
      show Checker.Advances _ (finalState (env.infer (.apply span operator args) before))
      rw [Env.infer]
      exact Advancing.follows (fun rule =>
        env.arguments_advancing args span rule fun _ => rfl) before
  | @applyArgs _ _ env span operator args rule ruled arity =>
      refine ⟨(Rule.ofOperator_advancing span operator).advanced ruled, ?_⟩
      show Checker.Advances _ (finalState (env.infer (.apply span operator args) before))
      rw [Env.infer, bind_of_ok ruled, bind_of_ok (Rule.expectArity_run arity)]
      exact Advancing.follows (fun typedArgs => demand_advancing rule _) begun
  | @applyDemand _ middle _ env span operator args rule typedArgs ruled arity argsRun =>
      refine ⟨((Rule.ofOperator_advancing span operator).advanced ruled).trans
        ((env.inferAll_advancing args rule.inputs).advanced argsRun), ?_⟩
      show Checker.Advances (finalState (rule.demand begun))
        (finalState (env.infer (.apply span operator args) before))
      rw [Env.infer, bind_of_ok ruled, bind_of_ok (Rule.expectArity_run arity), bind_of_ok argsRun]
      exact Advancing.follows (fun _ => .pure _) begun
  | @callArgs _ _ env span node statics args rule ruled arity =>
      refine ⟨(Rule.ofCall_moves span node statics).advanced ruled, ?_⟩
      show Checker.Advances _ (finalState (env.infer (.call span node statics args) before))
      rw [Env.infer, bind_of_ok ruled, bind_of_ok (Rule.expectArity_run arity)]
      exact Advancing.follows (fun typedArgs => demand_advancing rule _) begun
  | @callDemand _ middle _ env span node statics args rule typedArgs ruled arity argsRun =>
      refine ⟨((Rule.ofCall_moves span node statics).advanced ruled).trans
        ((env.inferAll_advancing args rule.inputs).advanced argsRun), ?_⟩
      show Checker.Advances (finalState (rule.demand begun))
        (finalState (env.infer (.call span node statics args) before))
      rw [Env.infer, bind_of_ok ruled, bind_of_ok (Rule.expectArity_run arity), bind_of_ok argsRun]
      exact Advancing.follows (fun _ => .pure _) begun
  | @firstArg _ env arg args ty expected =>
      refine ⟨.refl _, ?_⟩
      show Checker.Advances _ (finalState (env.inferAll (arg :: args) (ty :: expected) before))
      rw [Env.inferAll]
      refine Advancing.follows (fun typed => ?_) before
      refine .bind (unifyAt_moves _ _ _) fun _ => ?_
      exact .bind (env.inferAll_advancing args expected) fun typedArgs => .pure _
  | @firstArgTy _ _ env arg args ty expected typed argRun =>
      refine ⟨(env.infer_advancing arg).advanced argRun, ?_⟩
      show Checker.Advances _ (finalState (env.inferAll (arg :: args) (ty :: expected) before))
      rw [Env.inferAll, bind_of_ok argRun]
      refine Advancing.follows (fun _ => ?_) begun
      exact .bind (env.inferAll_advancing args expected) fun typedArgs => .pure _
  | @otherArgs _ middle _ env arg args ty expected typed argRun tyRun =>
      refine ⟨((env.infer_advancing arg).advanced argRun).trans
        ((unifyAt_moves _ _ _).advanced tyRun), ?_⟩
      show Checker.Advances _ (finalState (env.inferAll (arg :: args) (ty :: expected) before))
      rw [Env.inferAll, bind_of_ok argRun, bind_of_ok tyRun]
      exact Advancing.follows (fun typedArgs => .pure _) begun

private theorem BodyStep.within (step : BodyStep outer before inner begun)
    (generates : outer.MayGenerate) : Within outer before inner begun := by
  cases step with
  | @equationValue _ _ env equation expected patternRun =>
      refine ⟨(env.patternTy_moves _).advanced patternRun, ?_⟩
      show Checker.Advances _ (finalState (env.checkEquation equation before))
      rw [Env.checkEquation, bind_of_ok patternRun, Env.check, bind_assoc]
      refine Advancing.follows (fun typed => ?_) begun
      exact .bind (.bind (unifyAt_moves _ _ _) fun _ => .pure _) fun value => .pure _
  | @equationTy _ middle _ env equation expected typed patternRun valueRun =>
      refine ⟨((env.patternTy_moves _).advanced patternRun).trans
        ((env.infer_advancing _).advanced valueRun), ?_⟩
      show Checker.Advances _ (finalState (env.checkEquation equation before))
      rw [Env.checkEquation, bind_of_ok patternRun, Env.check, bind_assoc, bind_of_ok valueRun,
        bind_assoc]
      exact Advancing.follows (fun _ => .bind (.pure typed) fun value => .pure _) begun
  | localTy _ _ | otherLocals _ _ | assumeIn _ _ => exact generates.elim
  | @systemLocals _ env span locals equations =>
      refine ⟨.refl _, ?_⟩
      exact Advancing.follows (fun scope : Env × List Typed.Wire =>
        .bind (.mapM scope.1.checkEquation_advancing equations) fun typed => .pure _) before
  | @systemEquation _ middle _ env inner span locals equations equation wires declared turn =>
      have advancing := inner.checkEquation_advancing
      refine ⟨((Env.declare_moves locals env).advanced declared).trans
        (turn.moved advancing), (turn.follows advancing).trans ?_⟩
      show Checker.Advances _ (finalState (env.checkBlock (.system span locals equations) before))
      rw [Env.checkBlock, bind_of_ok declared]
      exact Advancing.follows (fun typed => .pure _) middle
  | @choiceAssume _ env span condition onTrue onFalse kind =>
      refine ⟨.refl _, ?_⟩
      show Checker.Advances _
        (finalState (env.checkBlock (.choice span condition onTrue onFalse) before))
      rw [Env.checkBlock, bind_of_ok (expectKind_run kind)]
      refine Advancing.follows (fun assumed => ?_) before
      refine .bind (Env.checkBlock_advancing onTrue assumed) fun typedTrue => ?_
      exact .bind (Env.checkBlock_advancing onFalse env) fun typedFalse => .pure _
  | @choiceTrue _ _ env assumed span condition onTrue onFalse kind assumeRun =>
      refine ⟨(env.assume_moves condition).advanced assumeRun, ?_⟩
      show Checker.Advances _
        (finalState (env.checkBlock (.choice span condition onTrue onFalse) before))
      rw [Env.checkBlock, bind_of_ok (expectKind_run kind), bind_of_ok assumeRun]
      refine Advancing.follows (fun typedTrue => ?_) begun
      exact .bind (Env.checkBlock_advancing onFalse env) fun typedFalse => .pure _
  | @choiceFalse _ middle _ env assumed span condition onTrue onFalse typedTrue kind assumeRun
      trueRun =>
      refine ⟨((env.assume_moves condition).advanced assumeRun).trans
        ((Env.checkBlock_advancing onTrue assumed).advanced trueRun), ?_⟩
      show Checker.Advances _
        (finalState (env.checkBlock (.choice span condition onTrue onFalse) before))
      rw [Env.checkBlock, bind_of_ok (expectKind_run kind), bind_of_ok assumeRun,
        bind_of_ok trueRun]
      exact Advancing.follows (fun typedFalse => .pure _) begun

private theorem NodeStep.within (step : NodeStep outer before inner begun)
    (generates : outer.MayGenerate) : Within outer before inner begun := by
  cases step with
  | @introduceNode _ node =>
      refine ⟨.refl _, ?_⟩
      show Checker.Advances _ (finalState (node.checkDefinition before))
      rw [Node.checkDefinition_eq]
      refine Advancing.follows (fun ports => ?_) before
      refine .bind (Env.checkBlock_advancing node.body _) fun body => ?_
      exact (node.conclude_moves _ _ body)
  | @nodeBody _ _ node inputs outputs introduceRun =>
      refine ⟨node.introduce_moves.advanced introduceRun, ?_⟩
      show Checker.Advances _ (finalState (node.checkDefinition before))
      rw [Node.checkDefinition_eq, bind_of_ok introduceRun]
      exact Advancing.follows (fun body => (node.conclude_moves _ _ body)) begun
  | @concludeNode _ middle _ node inputs outputs body introduceRun bodyRun =>
      refine ⟨(node.introduce_moves.advanced introduceRun).trans
        ((Env.checkBlock_advancing node.body _).advanced bodyRun), ?_⟩
      show Checker.Advances _ (finalState (node.checkDefinition before))
      rw [Node.checkDefinition_eq, bind_of_ok introduceRun, bind_of_ok bodyRun]
      exact .refl _
  | @nodeDefinition _ node => exact ⟨.refl _, (node.check_rests before).advances⟩
  | @nodeInTurn _ _ nodes node turn =>
      exact ⟨turn.moved Node.check_advancing, turn.follows Node.check_advancing⟩
  | _ => exact generates.elim

/-- While a task is carried out, the counter only goes up: it is at most as far when the inner task is
begun, and at least as far when the outer task ends. -/
theorem Involves.within (involves : Involves outer before inner begun) :
    Within outer before inner begun := by
  by_cases generates : outer.MayGenerate
  · cases involves with
    | expr step => exact step.within generates
    | body step => exact step.within generates
    | node step => exact step.within generates
    | store step | unify step | finish step =>
        cases step <;> exact generates.elim
  · exact (involves.idles generates).within generates

/-- No task during another one begins with a lower counter. -/
theorem During.advances {whole : Task} (during : During whole checker task begun) :
    checker.Advances begun := by
  induction during with
  | whole => exact .refl checker
  | inner _ involves ih => exact ih.trans involves.within.begins

end Task

/-! ## Points in time -/

/-- A task is begun in a state, or was begun in it and has ended. -/
inductive Point
  | begins (task : Task) (checker : Checker)
  | ends (task : Task) (checker : Checker)

namespace Point

/-- The state at this point. -/
def state : Point → Checker
  | .begins _ checker => checker
  | .ends task checker => task.after checker

/-- The second point comes after the first: a task ends after it is begun, the tasks that it involves
are begun and end in between, and one of them is begun where another has left off.  After a node
any other node may be checked. -/
inductive Next : Point → Point → Prop
  | carryOut (task : Task) (checker : Checker) : Next (.begins task checker) (.ends task checker)
  | enter {outer inner : Task} {before begun : Checker}
      (involves : Task.Involves outer before inner begun) :
      Next (.begins outer before) (.begins inner begun)
  | leave {outer inner : Task} {before begun : Checker}
      (involves : Task.Involves outer before inner begun) :
      Next (.ends inner begun) (.ends outer before)
  | proceed {outer first second : Task} {before begun : Checker}
      (involvesFirst : Task.Involves outer before first begun)
      (involvesSecond : Task.Involves outer before second (first.after begun)) :
      Next (.ends first begun) (.begins second (first.after begun))
  | nextNode (node other : Node) (checker : Checker) :
      Next (.ends (.checkNode node) checker)
        (.begins (.checkNode other) (finalState (node.check checker)))

/-- The first point comes earlier than the second. -/
def Before : Point → Point → Prop := Relation.TransGen Next

variable {first second : Point}

private theorem Next.advances (next : Next first second) : first.state.Advances second.state := by
  cases next with
  | carryOut task checker => exact task.after_advances checker
  | enter involves => exact involves.within.begins
  | leave involves => exact involves.within.ends
  | proceed _ _ => exact .refl _
  | nextNode node other checker => exact .refl _

/-- **The counter never falls.**  Between an earlier and a later point of a session the counter of
generated widths stays or goes up. -/
theorem Before.advances (before : first.Before second) : first.state.Advances second.state := by
  induction before with
  | single next => exact next.advances
  | tail _ next ih => exact ih.trans next.advances

end Point

end CircuitWidths
