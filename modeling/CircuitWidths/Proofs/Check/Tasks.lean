import CircuitWidths.Proofs.Check.Ports

/-!
# Checking, task by task

Checking consists of tasks: to resolve a type, to make two types equal, to infer the type of an
expression, to check a body, and so on.  A task is begun in some state and leaves a state behind
whether it succeeds or not (`Task.after`).  Most tasks involve smaller ones, each begun in the state
in which the ones before it have left off (`Task.Involves`).  A task lists what it involves only as
far as that changes the state.  So the moments of a check are the beginnings and the ends of the
tasks that are carried out during it (`Task.During`).
-/

namespace CircuitWidths

open CheckM Circuit

/-- A step is done for each of the items, from the first state on, and goes on after results of this
kind.  The turn of the item comes in the second state. -/
inductive Turn {ε σ α β : Type} (each : α → EStateM ε σ β) (goesOn : β → Prop) :
    List α → σ → α → σ → Prop
  | first {item : α} {items : List α} {state : σ} :
      Turn each goesOn (item :: items) state item state
  | later {item other : α} {items : List α} {state middle reached : σ} {value : β}
      (run : each item state = .ok value middle) (allowed : goesOn value)
      (rest : Turn each goesOn items middle other reached) :
      Turn each goesOn (item :: items) state other reached

/-- What every step for an item keeps is true when the turn of an item comes. -/
theorem Turn.keeps {ε σ α β : Type} {each : α → EStateM ε σ β} {goesOn : β → Prop}
    {items : List α} {state reached : σ} {item : α}
    (turn : Turn each goesOn items state item reached) {invariant : σ → Prop}
    (kept : ∀ other ∈ items, ∀ middle, invariant middle →
      ∀ value next, each other middle = .ok value next → invariant next)
    (holds : invariant state) : item ∈ items ∧ invariant reached := by
  induction turn with
  | first => exact ⟨List.mem_cons_self, holds⟩
  | later run _ _ ih =>
      obtain ⟨head, tail⟩ := List.forall_mem_cons.mp kept
      obtain ⟨inside, holds⟩ := ih tail (head _ holds _ _ run)
      exact ⟨List.mem_cons_of_mem _ inside, holds⟩

/-- When the items before it are done, the turn of an item comes. -/
theorem Turn.of_mapM {ε σ α β : Type} {each : α → EStateM ε σ β} {item : α} {after : List α}
    {reached : σ} : ∀ (before : List α) {state : σ} {results : List β},
      before.mapM each state = .ok results reached →
      Turn each (fun _ => True) (before ++ item :: after) state item reached := by
  intro before
  induction before with
  | nil =>
      intro state results run
      cases run
      exact .first
  | cons head before ih =>
      intro state results run
      rw [List.mapM_cons] at run
      obtain ⟨value, middle, headRun, run⟩ := exists_of_bind_ok run
      obtain ⟨others, last, othersRun, run⟩ := exists_of_bind_ok run
      cases run
      exact .later headRun trivial (ih othersRun)

/-- The arguments of an operator or a call. -/
def Typed.Expr.args : Typed.Expr → List Typed.Expr
  | .const _ _ _ | .wire _ _ _ => []
  | .apply _ _ _ args | .call _ _ _ _ args => args

/-- The variable that unification links when it meets two heads, and what it is linked to. -/
def Unification.link? : Ty → Ty → Option (TyVar × Ty)
  | .var left, .var right => if left = right then none else some (right, .var left)
  | found, .var id => some (id, found)
  | .var id, expected => some (id, expected)
  | _, _ => none

/-- Something that checking does, with the data that it works on. -/
inductive Task
  | represent (limit : Nat) (ty : Ty)
  | resolve (limit : Nat) (ty : Ty)
  | search (id : TyVar) (limit : Nat) (ty : Ty)
  | bind (id : TyVar) (ty : Ty)
  | unify (limit : Nat) (found expected : Ty)
  | unifyAt (span : Source.Span) (found expected : Ty)
  | generate
  | ofOperator (span : Source.Span) (operator : Operator)
  | demand (conditions : List Static.Expr)
  | infer (env : Env) (expr : Circuit.Expr)
  | inferAll (env : Env) (args : List Circuit.Expr) (expected : List Ty)
  | checkEquation (env : Env) (equation : Equation)
  | declare (env : Env) (locals : List Local)
  | assume (env : Env) (condition : Static.Expr)
  | checkBlock (env : Env) (block : Block)
  | declarePort (port : Port)
  | declarePorts (ports : List Port)
  | finishExpr (expr : Typed.Expr)
  | finishBlock (block : Typed.Block)
  | finishWires (wires : List Typed.Wire)
  | solve (node : Node)
  | introduce (node : Node)
  | conclude (node : Node) (inputs outputs : List Typed.Wire) (body : Typed.Block)
  | checkDefinition (node : Node)
  | checkNode (node : Node)
  | checkNodes (nodes : List Node)

namespace Task

/-- The state that a task leaves behind. -/
def after : Task → Checker → Checker
  | .represent limit ty, checker =>
    finalState (onTypes (TypeStore.representativeWithin limit ty) checker)
  | .resolve limit ty, checker => finalState (onTypes (TypeStore.resolveWithin limit ty) checker)
  | .search id limit ty, checker =>
    finalState (onTypes (TypeStore.occursWithin id limit ty) checker)
  | .bind id ty, checker =>
    { checker with
      toUnification := finalState (Unification.bindVar id ty checker.toUnification) }
  | .unify limit found expected, checker =>
    { checker with
      toUnification :=
        finalState (Unification.unifyWithin limit found expected checker.toUnification) }
  | .unifyAt span found expected, checker => finalState (CheckM.unifyAt span found expected checker)
  | .generate, checker => finalState (freshWidth checker)
  | .ofOperator span operator, checker => finalState (Rule.ofOperator span operator checker)
  | .demand conditions, checker => finalState (conditions.forM emit checker)
  | .infer env expr, checker => finalState (env.infer expr checker)
  | .inferAll env args expected, checker => finalState (env.inferAll args expected checker)
  | .checkEquation env equation, checker => finalState (env.checkEquation equation checker)
  | .declare env locals, checker => finalState (env.declare locals checker)
  | .assume env condition, checker => finalState (env.assume condition checker)
  | .checkBlock env block, checker => finalState (env.checkBlock block checker)
  | .declarePort port, checker => finalState (port.declare checker)
  | .declarePorts ports, checker => finalState (ports.mapM Port.declare checker)
  | .finishExpr expr, checker => finalState (onTypes expr.resolve checker)
  | .finishBlock block, checker => finalState (onTypes block.resolve checker)
  | .finishWires wires, checker =>
    finalState ((wires.mapM fun wire => onTypes wire.resolve) checker)
  | .solve node, checker => finalState (node.solvePending checker)
  | .introduce node, checker => finalState (node.introduce checker)
  | .conclude node inputs outputs body, checker =>
    finalState (node.conclude inputs outputs body checker)
  | .checkDefinition node, checker => finalState (node.checkDefinition checker)
  | .checkNode node, checker => finalState (node.check checker)
  | .checkNodes nodes, checker => finalState (Circuit.checkNodes nodes checker)

/-- To resolve a type completely in this state. -/
def resolveIn (checker : Checker) (ty : Ty) : Task := .resolve (checker.types.unfoldLimit [ty]) ty

/-- To find what links lead to, variables are passed one by one, and members of products in order. -/
inductive StoreStep : Task → Checker → Task → Checker → Prop
  | nextLink {checker : Checker} {limit : Nat} {id : TyVar} {ty : Ty}
      (linked : checker.types.Linked id ty) :
      StoreStep (.represent (limit + 1) (.var id)) checker (.represent limit ty) checker
  | resolveHead {checker : Checker} {limit : Nat} {ty : Ty} :
      StoreStep (.resolve (limit + 1) ty) checker
        (.represent (checker.types.size + 1) ty) checker
  | resolveMember {checker : Checker} {limit : Nat} {ty member : Ty} {members : List Ty}
      {middle types : TypeStore}
      (found : TypeStore.representative ty checker.types = .ok (.product members) middle)
      (turn : Turn (TypeStore.resolveWithin limit) (fun _ => True) members middle member types) :
      StoreStep (.resolve (limit + 1) ty) checker
        (.resolve limit member) { checker with types := types }
  | searchHead {checker : Checker} {id : TyVar} {limit : Nat} {ty : Ty} :
      StoreStep (.search id (limit + 1) ty) checker
        (.represent (checker.types.size + 1) ty) checker
  | searchMember {checker : Checker} {id : TyVar} {limit : Nat} {ty member : Ty}
      {members : List Ty} {middle types : TypeStore}
      (found : TypeStore.representative ty checker.types = .ok (.product members) middle)
      (turn : Turn (TypeStore.occursWithin id limit) (· = false) members middle member types) :
      StoreStep (.search id (limit + 1) ty) checker
        (.search id limit member) { checker with types := types }

/-- To make two types equal, their heads are found, variables are linked and members of products are
made equal in order.  The types of a mismatch are resolved for its message. -/
inductive UnifyStep : Task → Checker → Task → Checker → Prop
  | bindSearch {checker : Checker} {id : TyVar} {ty : Ty} :
      UnifyStep (.bind id ty) checker (.search id (checker.types.unfoldLimit [ty]) ty) checker
  | unifyFound {checker : Checker} {limit : Nat} {found expected : Ty} :
      UnifyStep (.unify (limit + 1) found expected) checker
        (.represent (checker.types.size + 1) found) checker
  | unifyExpected {checker : Checker} {limit : Nat} {found expected foundHead : Ty}
      {types : TypeStore}
      (foundRun : TypeStore.representative found checker.types = .ok foundHead types) :
      UnifyStep (.unify (limit + 1) found expected) checker
        (.represent (types.size + 1) expected) { checker with types := types }
  | unifyLink {checker : Checker} {limit : Nat} {found expected foundHead expectedHead ty : Ty}
      {id : TyVar} {middle types : TypeStore}
      (foundRun : TypeStore.representative found checker.types = .ok foundHead middle)
      (expectedRun : TypeStore.representative expected middle = .ok expectedHead types)
      (links : Unification.link? foundHead expectedHead = some (id, ty)) :
      UnifyStep (.unify (limit + 1) found expected) checker
        (.bind id ty) { checker with types := types }
  | unifyMembers {checker : Checker} {limit : Nat} {found expected : Ty} {pair : Ty × Ty}
      {lefts rights : List Ty} {middle types : TypeStore} {state : Unification}
      (foundRun : TypeStore.representative found checker.types = .ok (.product lefts) middle)
      (expectedRun : TypeStore.representative expected middle = .ok (.product rights) types)
      (sameLength : lefts.length = rights.length)
      (turn : Turn (fun pair : Ty × Ty => Unification.unifyWithin limit pair.1 pair.2)
        (fun _ => True) (lefts.zip rights) { checker.toUnification with types := types } pair
        state) :
      UnifyStep (.unify (limit + 1) found expected) checker
        (.unify limit pair.1 pair.2) { checker with toUnification := state }
  | unifyFirst {checker : Checker} {span : Source.Span} {found expected : Ty} :
      UnifyStep (.unifyAt span found expected) checker
        (.unify (checker.types.unfoldLimit [found, expected]) found expected) checker
  | mismatchFound {checker : Checker} {span : Source.Span} {found expected : Ty}
      {state : Unification}
      (differ : Unification.unify found expected checker.toUnification = .error .mismatch state) :
      UnifyStep (.unifyAt span found expected) checker
        (resolveIn { checker with toUnification := state } found)
        { checker with toUnification := state }
  | mismatchExpected {checker : Checker} {span : Source.Span} {found expected resolved : Ty}
      {state : Unification} {next : Checker}
      (differ : Unification.unify found expected checker.toUnification = .error .mismatch state)
      (foundRun : onTypes (TypeStore.resolve found) { checker with toUnification := state } =
        .ok resolved next) :
      UnifyStep (.unifyAt span found expected) checker (resolveIn next expected) next

/-- To infer the type of an expression, its rule is found, then its arguments are inferred and made
equal to what the rule asks for, and then the conditions of the rule are added. -/
inductive ExprStep : Task → Checker → Task → Checker → Prop
  | operatorWidth {checker next : Checker} {span : Source.Span} {operator : Operator} {index : Nat}
      {widths : Nat → Static.Expr} (kinds : ∀ static ∈ operator.statics, static.HasKind .int)
      (needed : index < operator.generated)
      (earlier : CheckM.generate index checker = .ok widths next) :
      ExprStep (.ofOperator span operator) checker .generate next
  | demandNext {checker next : Checker} {condition : Static.Expr} {conditions : List Static.Expr}
      (emitted : emit condition checker = .ok () next) :
      ExprStep (.demand (condition :: conditions)) checker (.demand conditions) next
  | applyRule {checker : Checker} {env : Env} {span : Source.Span} {operator : Operator}
      {args : List Circuit.Expr} :
      ExprStep (.infer env (.apply span operator args)) checker (.ofOperator span operator) checker
  | applyArgs {checker next : Checker} {env : Env} {span : Source.Span} {operator : Operator}
      {args : List Circuit.Expr} {rule : Rule}
      (ruled : Rule.ofOperator span operator checker = .ok rule next)
      (arity : args.length = rule.inputs.length) :
      ExprStep (.infer env (.apply span operator args)) checker
        (.inferAll env args rule.inputs) next
  | applyDemand {checker middle next : Checker} {env : Env} {span : Source.Span}
      {operator : Operator} {args : List Circuit.Expr} {rule : Rule}
      {typedArgs : List Typed.Expr}
      (ruled : Rule.ofOperator span operator checker = .ok rule middle)
      (arity : args.length = rule.inputs.length)
      (argsRun : env.inferAll args rule.inputs middle = .ok typedArgs next) :
      ExprStep (.infer env (.apply span operator args)) checker (.demand rule.conditions) next
  | callArgs {checker next : Checker} {env : Env} {span : Source.Span} {node : Ident}
      {statics : List Static.Expr} {args : List Circuit.Expr} {rule : Rule}
      (ruled : Rule.ofCall span node statics checker = .ok rule next)
      (arity : args.length = rule.inputs.length) :
      ExprStep (.infer env (.call span node statics args)) checker
        (.inferAll env args rule.inputs) next
  | callDemand {checker middle next : Checker} {env : Env} {span : Source.Span} {node : Ident}
      {statics : List Static.Expr} {args : List Circuit.Expr} {rule : Rule}
      {typedArgs : List Typed.Expr}
      (ruled : Rule.ofCall span node statics checker = .ok rule middle)
      (arity : args.length = rule.inputs.length)
      (argsRun : env.inferAll args rule.inputs middle = .ok typedArgs next) :
      ExprStep (.infer env (.call span node statics args)) checker (.demand rule.conditions) next
  | firstArg {checker : Checker} {env : Env} {arg : Circuit.Expr} {args : List Circuit.Expr}
      {ty : Ty} {expected : List Ty} :
      ExprStep (.inferAll env (arg :: args) (ty :: expected)) checker (.infer env arg) checker
  | firstArgTy {checker next : Checker} {env : Env} {arg : Circuit.Expr}
      {args : List Circuit.Expr} {ty : Ty} {expected : List Ty} {typed : Typed.Expr}
      (argRun : env.infer arg checker = .ok typed next) :
      ExprStep (.inferAll env (arg :: args) (ty :: expected)) checker
        (.unifyAt arg.span typed.ty ty) next
  | otherArgs {checker middle next : Checker} {env : Env} {arg : Circuit.Expr}
      {args : List Circuit.Expr} {ty : Ty} {expected : List Ty} {typed : Typed.Expr}
      (argRun : env.infer arg checker = .ok typed middle)
      (tyRun : CheckM.unifyAt arg.span typed.ty ty middle = .ok () next) :
      ExprStep (.inferAll env (arg :: args) (ty :: expected)) checker
        (.inferAll env args expected) next

/-- To check a body, its wires are declared and then its equations are checked in order, or the first
side of a choice is checked under the condition and then the second. -/
inductive BodyStep : Task → Checker → Task → Checker → Prop
  | equationValue {checker next : Checker} {env : Env} {equation : Equation} {expected : Ty}
      (patternRun : env.patternTy equation.pattern checker = .ok expected next) :
      BodyStep (.checkEquation env equation) checker (.infer env equation.value) next
  | equationTy {checker middle next : Checker} {env : Env} {equation : Equation} {expected : Ty}
      {typed : Typed.Expr}
      (patternRun : env.patternTy equation.pattern checker = .ok expected middle)
      (valueRun : env.infer equation.value middle = .ok typed next) :
      BodyStep (.checkEquation env equation) checker
        (.unifyAt equation.value.span typed.ty expected) next
  | localTy {checker next : Checker} {env : Env} {wire : Local} {locals : List Local} {ty : Ty}
      {declared : DeclaredTy} (made : freshTy checker = .ok ty next)
      (annotated : wire.declared = some declared) :
      BodyStep (.declare env (wire :: locals)) checker
        (.unifyAt wire.id.span ty declared.toTy) next
  | otherLocals {checker middle next : Checker} {env : Env} {wire : Local} {locals : List Local}
      {ty : Ty} (made : freshTy checker = .ok ty middle)
      (annotated : Env.annotate wire ty middle = .ok () next) :
      BodyStep (.declare env (wire :: locals)) checker
        (.declare (env.insert wire.id.name ty) locals) next
  | assumeIn {checker next : Checker} {env : Env} {condition value : Static.Expr} {name : String}
      {entry : String × Ty} (equated : condition.equation? = some (name, value))
      (turn : Turn (Env.substituteEntry (Bindings.empty.insert name value)) (fun _ => True)
        env.entries checker entry next) :
      BodyStep (.assume env condition) checker (resolveIn next entry.2) next
  | systemLocals {checker : Checker} {env : Env} {span : Source.Span} {locals : List Local}
      {equations : List Equation} :
      BodyStep (.checkBlock env (.system span locals equations)) checker
        (.declare env locals) checker
  | systemEquation {checker middle next : Checker} {env inner : Env} {span : Source.Span}
      {locals : List Local} {equations : List Equation} {equation : Equation}
      {wires : List Typed.Wire}
      (declared : env.declare locals checker = .ok (inner, wires) middle)
      (turn : Turn inner.checkEquation (fun _ => True) equations middle equation next) :
      BodyStep (.checkBlock env (.system span locals equations)) checker
        (.checkEquation inner equation) next
  | choiceAssume {checker : Checker} {env : Env} {span : Source.Span} {condition : Static.Expr}
      {onTrue onFalse : Block} (kind : condition.HasKind .bool) :
      BodyStep (.checkBlock env (.choice span condition onTrue onFalse)) checker
        (.assume env condition) checker
  | choiceTrue {checker next : Checker} {env assumed : Env} {span : Source.Span}
      {condition : Static.Expr} {onTrue onFalse : Block} (kind : condition.HasKind .bool)
      (assumeRun : env.assume condition checker = .ok assumed next) :
      BodyStep (.checkBlock env (.choice span condition onTrue onFalse)) checker
        (.checkBlock assumed onTrue) next
  | choiceFalse {checker middle next : Checker} {env assumed : Env} {span : Source.Span}
      {condition : Static.Expr} {onTrue onFalse : Block} {typedTrue : Typed.Block}
      (kind : condition.HasKind .bool)
      (assumeRun : env.assume condition checker = .ok assumed middle)
      (trueRun : assumed.checkBlock onTrue middle = .ok typedTrue next) :
      BodyStep (.checkBlock env (.choice span condition onTrue onFalse)) checker
        (.checkBlock env onFalse) next

/-- To resolve a typed circuit, all its types are resolved in order. -/
inductive FinishStep : Task → Checker → Task → Checker → Prop
  | exprTy {checker : Checker} {expr : Typed.Expr} :
      FinishStep (.finishExpr expr) checker (resolveIn checker expr.ty) checker
  | exprArg {checker : Checker} {expr arg : Typed.Expr} {resolved : Ty} {middle types : TypeStore}
      (tyRun : TypeStore.resolve expr.ty checker.types = .ok resolved middle)
      (turn : Turn Typed.Expr.resolve (fun _ => True) expr.args middle arg types) :
      FinishStep (.finishExpr expr) checker (.finishExpr arg) { checker with types := types }
  | blockWire {checker : Checker} {span : Source.Span} {wires : List Typed.Wire}
      {equations : List Typed.Equation} {wire : Typed.Wire} {types : TypeStore}
      (turn : Turn Typed.Wire.resolve (fun _ => True) wires checker.types wire types) :
      FinishStep (.finishBlock (.system span wires equations)) checker
        (resolveIn { checker with types := types } wire.ty) { checker with types := types }
  | blockEquation {checker : Checker} {span : Source.Span} {wires resolved : List Typed.Wire}
      {equations : List Typed.Equation} {equation : Typed.Equation} {middle types : TypeStore}
      (wiresRun : wires.mapM Typed.Wire.resolve checker.types = .ok resolved middle)
      (turn : Turn Typed.Equation.resolve (fun _ => True) equations middle equation types) :
      FinishStep (.finishBlock (.system span wires equations)) checker
        (.finishExpr equation.value) { checker with types := types }
  | blockTrue {checker : Checker} {span : Source.Span} {condition : Static.Expr}
      {onTrue onFalse : Typed.Block} :
      FinishStep (.finishBlock (.choice span condition onTrue onFalse)) checker
        (.finishBlock onTrue) checker
  | blockFalse {checker : Checker} {span : Source.Span} {condition : Static.Expr}
      {onTrue onFalse resolved : Typed.Block} {types : TypeStore}
      (trueRun : onTrue.resolve checker.types = .ok resolved types) :
      FinishStep (.finishBlock (.choice span condition onTrue onFalse)) checker
        (.finishBlock onFalse) { checker with types := types }
  | wireTy {checker next : Checker} {wires : List Typed.Wire} {wire : Typed.Wire}
      (turn : Turn (fun wire : Typed.Wire => onTypes wire.resolve) (fun _ => True) wires checker
        wire next) :
      FinishStep (.finishWires wires) checker (resolveIn next wire.ty) next

/-- To check a node, its ports are declared and resolved, then its body is checked, and then its types
are resolved and its pending conditions are solved. -/
inductive NodeStep : Task → Checker → Task → Checker → Prop
  | portTy {checker next : Checker} {port : Port} {ty : Ty}
      (made : freshTy checker = .ok ty next) :
      NodeStep (.declarePort port) checker (.unifyAt port.span ty port.declared.toTy) next
  | portInTurn {checker next : Checker} {ports : List Port} {port : Port}
      (turn : Turn Port.declare (fun _ => True) ports checker port next) :
      NodeStep (.declarePorts ports) checker (.declarePort port) next
  | introduceInputs {checker : Checker} {node : Node} :
      NodeStep (.introduce node) checker (.declarePorts node.inputs) checker
  | introduceOutputs {checker next : Checker} {node : Node} {inputs : List Typed.Wire}
      (inputsRun : node.inputs.mapM Port.declare checker = .ok inputs next) :
      NodeStep (.introduce node) checker (.declarePorts node.outputs) next
  | knownInputs {checker middle next : Checker} {node : Node} {inputs outputs : List Typed.Wire}
      (inputsRun : node.inputs.mapM Port.declare checker = .ok inputs middle)
      (outputsRun : node.outputs.mapM Port.declare middle = .ok outputs next) :
      NodeStep (.introduce node) checker (.finishWires inputs) next
  | knownOutputs {checker first second next : Checker} {node : Node}
      {inputs outputs known : List Typed.Wire}
      (inputsRun : node.inputs.mapM Port.declare checker = .ok inputs first)
      (outputsRun : node.outputs.mapM Port.declare first = .ok outputs second)
      (knownRun : (inputs.mapM fun wire => onTypes wire.resolve) second = .ok known next) :
      NodeStep (.introduce node) checker (.finishWires outputs) next
  | typedBody {checker : Checker} {node : Node} {inputs outputs : List Typed.Wire}
      {body : Typed.Block} :
      NodeStep (.conclude node inputs outputs body) checker (.finishBlock body) checker
  | typedInputs {checker next : Checker} {node : Node} {inputs outputs : List Typed.Wire}
      {body resolved : Typed.Block} (bodyRun : onTypes body.resolve checker = .ok resolved next) :
      NodeStep (.conclude node inputs outputs body) checker (.finishWires inputs) next
  | typedOutputs {checker middle next : Checker} {node : Node}
      {inputs outputs typedInputs : List Typed.Wire} {body resolved : Typed.Block}
      (bodyRun : onTypes body.resolve checker = .ok resolved middle)
      (inputsRun : (inputs.mapM fun wire => onTypes wire.resolve) middle = .ok typedInputs next) :
      NodeStep (.conclude node inputs outputs body) checker (.finishWires outputs) next
  | solvePending {checker first second next : Checker} {node : Node}
      {inputs outputs typedInputs typedOutputs : List Typed.Wire} {body resolved : Typed.Block}
      (bodyRun : onTypes body.resolve checker = .ok resolved first)
      (inputsRun : (inputs.mapM fun wire => onTypes wire.resolve) first = .ok typedInputs second)
      (outputsRun : (outputs.mapM fun wire => onTypes wire.resolve) second =
        .ok typedOutputs next) :
      NodeStep (.conclude node inputs outputs body) checker (.solve node) next
  | introduceNode {checker : Checker} {node : Node} :
      NodeStep (.checkDefinition node) checker (.introduce node) checker
  | nodeBody {checker next : Checker} {node : Node} {inputs outputs : List Typed.Wire}
      (introduceRun : node.introduce checker = .ok (inputs, outputs) next) :
      NodeStep (.checkDefinition node) checker (.checkBlock (portEnv inputs outputs) node.body) next
  | concludeNode {checker middle next : Checker} {node : Node} {inputs outputs : List Typed.Wire}
      {body : Typed.Block} (introduceRun : node.introduce checker = .ok (inputs, outputs) middle)
      (bodyRun : (portEnv inputs outputs).checkBlock node.body middle = .ok body next) :
      NodeStep (.checkDefinition node) checker (.conclude node inputs outputs body) next
  | nodeDefinition {checker : Checker} {node : Node} :
      NodeStep (.checkNode node) checker (.checkDefinition node) checker
  | nodeInTurn {checker next : Checker} {nodes : List Node} {node : Node}
      (turn : Turn Node.check (fun _ => True) nodes checker node next) :
      NodeStep (.checkNodes nodes) checker (.checkNode node) next

/-- To carry out the first task, begun in the first state, the second one is carried out, begun in
the second state. -/
inductive Involves (outer : Task) (before : Checker) (inner : Task) (begun : Checker) : Prop
  | store (step : StoreStep outer before inner begun)
  | unify (step : UnifyStep outer before inner begun)
  | expr (step : ExprStep outer before inner begun)
  | body (step : BodyStep outer before inner begun)
  | finish (step : FinishStep outer before inner begun)
  | node (step : NodeStep outer before inner begun)

/-- The tasks that are carried out while the whole is carried out, and the states in which they are
begun. -/
inductive During (whole : Task) (checker : Checker) : Task → Checker → Prop
  | whole : During whole checker whole checker
  | inner {outer task : Task} {before begun : Checker} (during : During whole checker outer before)
      (involves : Involves outer before task begun) : During whole checker task begun

/-- What every task brings about in the tasks that it involves is true of all tasks during it. -/
theorem During.keeps {whole task : Task} {checker begun : Checker}
    (during : During whole checker task begun) {invariant : Task → Checker → Prop}
    (kept : ∀ outer before inner begun, invariant outer before →
      Involves outer before inner begun → invariant inner begun)
    (holds : invariant whole checker) : invariant task begun := by
  induction during with
  | whole => exact holds
  | inner _ involves ih => exact kept _ _ _ _ ih involves

/-- While nodes are checked, each of them is checked in its turn. -/
theorem During.turn {nodes : List Node} {node : Node} {checker begun : Checker}
    (during : During (.checkNodes nodes) checker (.checkNode node) begun) :
    Turn Node.check (fun _ => True) nodes checker node begun := by
  cases during with
  | inner outerDuring involves =>
      cases involves with
      | node step =>
          cases step with
          | nodeInTurn turn =>
              cases outerDuring with
              | whole => exact turn
              | inner _ involves =>
                  cases involves with
                  | node step => cases step
                  | store step | unify step | expr step | body step | finish step => cases step
      | store step | unify step | expr step | body step | finish step => cases step

end Task

end CircuitWidths
