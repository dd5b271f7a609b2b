import CircuitWidths.Proofs.Check.TypedTys
import CircuitWidths.Proofs.Check.Written

/-!
# Standards

A standard is a course of checking together with the types, widths and conditions that it allows in
each state.  It is kept if what is made of allowed parts is allowed, and the few steps that change
links and pending conditions stay on the course.  Then all of checking stays on the course, as long
as what is written in the circuit and what the known signatures say is allowed.  That is proved here
once, by recursion over circuits; whatever is said of every step of checking is a standard.
-/

namespace CircuitWidths

open CheckM Circuit

/-- A course, and the types, widths and conditions that are allowed in a state on it. -/
structure Standard extends Course Stop Checker where
  ty : Checker → Ty → Prop
  width : Checker → Static.Expr → Prop
  condition : Checker → Static.Expr → Prop
  ty_later : ∀ {checker next found}, follows checker next → ty checker found → ty next found
  width_later : ∀ {checker next expr}, follows checker next → width checker expr → width next expr
  condition_later : ∀ {checker next expr}, follows checker next → condition checker expr →
    condition next expr

/-- What is written in a body is as asked for at its place: in declared types, in operators and
calls, and in the conditions of choices. -/
def Circuit.Block.Abides (declared operand guard : Static.Expr → Prop) : Block → Prop
  | .system _ locals equations =>
    (∀ wire ∈ locals, ∀ width ∈ wire.statics, declared width) ∧
      ∀ equation ∈ equations, ∀ static ∈ equation.value.statics, operand static
  | .choice _ condition onTrue onFalse =>
    guard condition ∧ Abides declared operand guard onTrue ∧ Abides declared operand guard onFalse

/-- What is asked for may be weakened at each place. -/
theorem Circuit.Block.Abides.imp {declared operand guard declared' operand' guard' :
      Static.Expr → Prop} (ofDeclared : ∀ expr, declared expr → declared' expr)
    (ofOperand : ∀ expr, operand expr → operand' expr) (ofGuard : ∀ expr, guard expr → guard' expr)
    {block : Block} (abides : block.Abides declared operand guard) :
    block.Abides declared' operand' guard' := by
  induction block with
  | system span locals equations =>
      exact ⟨fun wire inside width written => ofDeclared width (abides.1 wire inside width written),
        fun equation inside static written =>
          ofOperand static (abides.2 equation inside static written)⟩
  | choice span condition onTrue onFalse ihTrue ihFalse =>
      exact ⟨ofGuard condition abides.1, ihTrue abides.2.1, ihFalse abides.2.2⟩

/-- If all that is written in a body is as asked for, then it is so at its place. -/
theorem Circuit.Block.abides_of_statics {declared operand guard : Static.Expr → Prop}
    {block : Block} (ofDeclared : ∀ static ∈ block.statics, declared static)
    (ofOperand : ∀ static ∈ block.statics, operand static)
    (ofGuard : ∀ static ∈ block.statics, guard static) : block.Abides declared operand guard := by
  induction block with
  | system span locals equations =>
      refine ⟨fun wire inside width written => ofDeclared width ?_,
        fun equation inside static written => ofOperand static ?_⟩
      · exact List.mem_append_left _ (List.mem_flatMap.mpr ⟨wire, inside, written⟩)
      · exact List.mem_append_right _ (List.mem_flatMap.mpr ⟨equation, inside, written⟩)
  | choice span condition onTrue onFalse ihTrue ihFalse =>
      obtain ⟨_, declaredBoth⟩ := List.forall_mem_cons.mp ofDeclared
      obtain ⟨_, operandBoth⟩ := List.forall_mem_cons.mp ofOperand
      obtain ⟨own, guardBoth⟩ := List.forall_mem_cons.mp ofGuard
      obtain ⟨declaredTrue, declaredFalse⟩ := List.forall_mem_append.mp declaredBoth
      obtain ⟨operandTrue, operandFalse⟩ := List.forall_mem_append.mp operandBoth
      obtain ⟨guardTrue, guardFalse⟩ := List.forall_mem_append.mp guardBoth
      exact ⟨own, ihTrue declaredTrue operandTrue guardTrue,
        ihFalse declaredFalse operandFalse guardFalse⟩

namespace Standard

variable (standard : Standard)

/-- An integer that is written in an operator or a call is an allowed width. -/
def Operand (static : Static.Expr) : Prop :=
  static.HasKind .int → ∀ checker, standard.width checker static

/-- Allowed types stay allowed where the condition is assumed. -/
def Guard (condition : Static.Expr) : Prop :=
  condition.HasKind .bool → ∀ name value, condition.equation? = some (name, value) →
    ∀ checker ty, standard.ty checker ty →
      standard.ty checker (ty.substitute (Bindings.empty.insert name value))

/-- What is written in the body is allowed. -/
def Governs (block : Block) : Prop :=
  block.Abides (fun width => ∀ checker, standard.width checker width) standard.Operand standard.Guard

/-- The types in scope are allowed. -/
def Scope (checker : Checker) (env : Env) : Prop :=
  ∀ entry ∈ env.entries, standard.ty checker entry.2

/-- From this state on, the known signatures are allowed at arguments that are allowed widths. -/
def Answers (checker : Checker) : Prop :=
  ∀ middle, standard.holds middle → standard.follows checker middle →
    ∀ name args signature, middle.catalog.instantiate name args = .ok signature →
      (∀ arg ∈ args, standard.width middle arg) →
      (∀ ty ∈ signature.inputs ++ signature.outputs, standard.ty middle ty) ∧
        ∀ condition ∈ signature.constraints, standard.condition middle condition

/-- What is made of allowed parts is allowed, a circuit may be rejected, and the steps that change
links and pending conditions stay on the course. -/
structure Kept : Prop where
  bit : ∀ checker, standard.ty checker .bit
  bits : ∀ {checker width}, standard.width checker width → standard.ty checker (.bits width)
  product : ∀ {checker members}, (∀ member ∈ members, standard.ty checker member) →
    standard.ty checker (.product members)
  literal : ∀ checker value, standard.width checker (.int value)
  sum : ∀ {checker left right}, standard.width checker left → standard.width checker right →
    standard.width checker (.binary .add left right)
  slice : ∀ {checker first last}, standard.width checker first → standard.width checker last →
    standard.width checker (Rule.sliceWidth first last)
  relation : ∀ {checker op left right}, op.isRelational = true → standard.width checker left →
    standard.width checker right → standard.condition checker (.binary op left right)
  rejects : ∀ {checker span cause}, standard.holds checker →
    (∀ found expected, cause ≠ .typeMismatch found expected) →
    standard.fails checker (.rejected ⟨span, cause⟩) checker
  freshTy : ∀ {checker}, standard.holds checker →
    Stays standard.toCourse freshTy checker fun ty next => standard.ty next ty
  resolve : ∀ {checker ty}, standard.holds checker → standard.ty checker ty →
    Stays standard.toCourse (onTypes (TypeStore.resolve ty)) checker
      fun resolved next => standard.ty next resolved
  unifyAt : ∀ {checker span found expected}, standard.holds checker → standard.ty checker found →
    standard.ty checker expected →
    Stays standard.toCourse (CheckM.unifyAt span found expected) checker fun _ _ => True
  emit : ∀ {checker condition}, standard.holds checker → standard.condition checker condition →
    Stays standard.toCourse (CheckM.emit condition) checker fun _ _ => True

/-- Generated widths are allowed. -/
def Generates : Prop :=
  ∀ {checker} count, standard.holds checker →
    Stays standard.toCourse (CheckM.generate count) checker
      fun widths next => ∀ index < count, standard.width next (widths index)

variable {standard} {checker next : Checker}

/-- Types in scope stay allowed along the course. -/
theorem Scope.later {env : Env} (follows : standard.follows checker next)
    (scope : standard.Scope checker env) : standard.Scope next env :=
  fun entry inside => standard.ty_later follows (scope entry inside)

private theorem Answers.later (follows : standard.follows checker next)
    (answers : standard.Answers checker) : standard.Answers next :=
  fun middle holds further => answers middle holds (standard.trans follows further)

/-- A wire with an allowed type may be put in scope. -/
theorem Scope.insert {env : Env} {name : String} {ty : Ty} (scope : standard.Scope checker env)
    (allowed : standard.ty checker ty) : standard.Scope checker (env.insert name ty) :=
  List.forall_mem_cons.mpr ⟨allowed, scope⟩

/-- The ports of a node are in scope around its body. -/
theorem scope_portEnv {inputs outputs : List Typed.Wire}
    (allowed : ∀ wire ∈ inputs ++ outputs, standard.ty checker wire.ty) :
    standard.Scope checker (portEnv inputs outputs) := by
  intro entry inside
  rcases Bindings.mem_insertAll inside with listed | before
  · obtain ⟨wire, member, rfl⟩ := List.mem_map.mp listed
    exact allowed wire member
  · cases before

namespace Kept

variable (kept : standard.Kept)

include kept

private theorem flat {ty : Ty} (flat : ty.Flat)
    (widths : ∀ width ∈ ty.widths, standard.width checker width) : standard.ty checker ty := by
  cases flat with
  | bit => exact kept.bit checker
  | bits width => exact kept.bits (widths width (by simp [Ty.widths]))

/-- A declared type is allowed if its widths are. -/
theorem declared {declared : DeclaredTy}
    (written : ∀ width ∈ declared.statics, standard.width checker width) :
    standard.ty checker declared.toTy :=
  kept.flat declared.toTy_flat written

private theorem outputs {tys : List Ty} (each : ∀ ty ∈ tys, standard.ty checker ty) :
    standard.ty checker (.ofOutputs tys) := by
  unfold Ty.ofOutputs
  split
  · exact each _ List.mem_cons_self
  · exact kept.product each

private theorem reject {α : Type} {span : Source.Span} {cause : Cause}
    {returns : α → Checker → Prop} (holds : standard.holds checker)
    (other : ∀ found expected, cause ≠ .typeMismatch found expected) :
    Stays standard.toCourse (CheckM.reject span cause) checker returns :=
  .throw (kept.rejects holds other)

end Kept

end Standard

/-- A course on which all types, widths and conditions are allowed. -/
abbrev Standard.permissive (course : Course Stop Checker) : Standard :=
  { course with
    ty := fun _ _ => True
    width := fun _ _ => True
    condition := fun _ _ => True
    ty_later := fun _ _ => trivial
    width_later := fun _ _ => trivial
    condition_later := fun _ _ => trivial }

namespace Standard

variable {course : Course Stop Checker}

/-- Where everything is allowed, a course is kept if its steps stay on it. -/
theorem kept_permissive
    (rejects : ∀ {checker span cause}, course.holds checker →
      course.fails checker (.rejected ⟨span, cause⟩) checker)
    (freshTy : ∀ {checker}, course.holds checker →
      Stays course CheckM.freshTy checker fun _ _ => True)
    (resolve : ∀ {checker} ty, course.holds checker →
      Stays course (onTypes (TypeStore.resolve ty)) checker fun _ _ => True)
    (unifyAt : ∀ {checker} span found expected, course.holds checker →
      Stays course (CheckM.unifyAt span found expected) checker fun _ _ => True)
    (emit : ∀ {checker} condition, course.holds checker →
      Stays course (CheckM.emit condition) checker fun _ _ => True) :
    (permissive course).Kept where
  bit := fun _ => trivial
  bits := fun _ => trivial
  product := fun _ => trivial
  literal := fun _ _ => trivial
  sum := fun _ _ => trivial
  slice := fun _ _ => trivial
  relation := fun _ _ _ => trivial
  rejects := fun holds _ => rejects holds
  freshTy := freshTy
  resolve := fun holds _ => resolve _ holds
  unifyAt := fun holds _ _ => unifyAt _ _ _ holds
  emit := fun holds _ => emit _ holds

/-- Where everything is allowed, so is what calls find. -/
theorem answers_permissive (checker : Checker) : (permissive course).Answers checker :=
  fun _ _ _ _ _ _ _ _ => ⟨fun _ _ => trivial, fun _ _ => trivial⟩

/-- Where everything is allowed, so is what is written in a body. -/
theorem governs_permissive (block : Block) : (permissive course).Governs block :=
  Block.abides_of_statics (fun _ _ _ => trivial) (fun _ _ _ _ => trivial)
    fun _ _ _ _ _ _ _ _ _ => trivial

end Standard

variable {standard : Standard} {checker next : Checker}

/-- A step for each item in turn, whose results have allowed types. -/
theorem Stays.mapM_tys {α β : Type} {each : α → CheckM β} (tyOf : β → Ty) {items : List α}
    (holds : standard.holds checker)
    (eachStays : ∀ item ∈ items, ∀ middle, standard.holds middle → standard.follows checker middle →
      Stays standard.toCourse (each item) middle fun result next => standard.ty next (tyOf result)) :
    Stays standard.toCourse (items.mapM each) checker
      fun results next => ∀ result ∈ results, standard.ty next (tyOf result) := by
  refine .mapM_all ?_ holds eachStays
  exact fun follows allowed => standard.ty_later follows allowed

/-! ## Rules of operators and calls -/

/-- Where a step may fail in any way, types are made equal on the course if unification and the search
for what a mismatch shows stay on it. -/
theorem CheckM.unifyAt_stays {course : Course Stop Checker} {span : Source.Span} {found expected : Ty}
    (tolerates : ∀ {checker} stop, course.holds checker → course.fails checker stop checker)
    (tried : Stays course (tryUnify found expected) checker fun _ _ => True)
    (resolves : ∀ ty ∈ [found, expected], ∀ middle, course.holds middle →
      course.follows checker middle →
      Stays course (onTypes (TypeStore.resolve ty)) middle fun _ _ => True) :
    Stays course (CheckM.unifyAt span found expected) checker fun _ _ => True := by
  refine .bind tried fun outcome middle holds follows _ => ?_
  cases outcome with
  | ok => exact .pure holds trivial
  | error error =>
      cases error with
      | mismatch =>
          refine .bind (resolves found (by simp) middle holds follows)
            fun _ next holds further _ => ?_
          refine .bind (resolves expected (by simp) next holds (course.trans follows further))
            fun _ _ holds _ _ => ?_
          exact .throw (tolerates _ holds)
      | resultArity => exact .throw (tolerates _ holds)
      | fault => exact .throw (tolerates _ holds)

private theorem CheckM.expectKind_stays (kept : standard.Kept) (span : Source.Span)
    (expr : Static.Expr) (kind : Static.Kind) (holds : standard.holds checker) :
    Stays standard.toCourse (expectKind span expr kind) checker fun _ _ => expr.HasKind kind := by
  unfold expectKind
  cases outcome : expr.expectKind kind with
  | ok => exact .pure holds (Static.Expr.hasKind_of_expectKind outcome)
  | error mismatch => exact kept.reject holds (by simp)

namespace Rule

private theorem expectKinds_stays (kept : standard.Kept) (span : Source.Span) (kind : Static.Kind)
    (exprs : List Static.Expr) (holds : standard.holds checker) :
    Stays standard.toCourse (exprs.forM fun expr => expectKind span expr kind) checker
      fun _ _ => ∀ expr ∈ exprs, expr.HasKind kind :=
  .forM (fun _ hasKind => hasKind) checker holds fun expr _ _ holds _ =>
    expectKind_stays kept span expr kind holds

/-- What the rule asks for and gives is allowed. -/
structure Allowed (standard : Standard) (checker : Checker) (rule : Rule) : Prop where
  inputs : ∀ ty ∈ rule.inputs, standard.ty checker ty
  output : standard.ty checker rule.output
  conditions : ∀ condition ∈ rule.conditions, standard.condition checker condition

/-- A rule stays allowed along the course. -/
theorem Allowed.later {rule : Rule} (follows : standard.follows checker next)
    (allowed : rule.Allowed standard checker) : rule.Allowed standard next where
  inputs := fun ty inside => standard.ty_later follows (allowed.inputs ty inside)
  output := standard.ty_later follows allowed.output
  conditions := fun condition inside =>
    standard.condition_later follows (allowed.conditions condition inside)

/-- The rule of an operator is allowed if the integers written in the operator are. -/
theorem ofOperator_stays (kept : standard.Kept) (generates : standard.Generates)
    (span : Source.Span) {operator : Operator}
    (written : ∀ static ∈ operator.statics, standard.Operand static)
    (holds : standard.holds checker) :
    Stays standard.toCourse (ofOperator span operator) checker
      fun rule next => rule.Allowed standard next := by
  rw [ofOperator_eq]
  refine .bind (expectKinds_stays kept span .int operator.statics holds)
    fun _ _ holds _ kinds => ?_
  refine .bind (generates operator.generated holds) fun widths next holds _ generated => ?_
  have operands : ∀ static ∈ operator.statics, standard.width next static :=
    fun static inside => written static inside (kinds static inside) next
  obtain ⟨inputsFlat, outputFlat⟩ := operator.rule_flat widths
  obtain ⟨inputs, output⟩ := Operator.rule_widths generated operands kept.sum kept.slice
  refine .pure holds ⟨fun ty inside => kept.flat (inputsFlat ty inside) (inputs ty inside),
    kept.flat outputFlat output, fun condition inside => ?_⟩
  obtain ⟨op, left, right, rfl, relational, leftAllowed, rightAllowed⟩ :=
    Operator.rule_conditions generated operands (kept.literal next 0) condition inside
  exact kept.relation relational leftAllowed rightAllowed

/-- The rule of a call is allowed if the known signatures and the arguments are. -/
theorem ofCall_stays (kept : standard.Kept) (span : Source.Span) (node : Ident)
    {statics : List Static.Expr} (written : ∀ static ∈ statics, standard.Operand static)
    (holds : standard.holds checker) (answers : standard.Answers checker) :
    Stays standard.toCourse (ofCall span node statics) checker
      fun rule next => rule.Allowed standard next := by
  refine .bind (expectKinds_stays kept span .int statics holds)
    fun _ middle holds follows kinds => ?_
  refine .get_bind ?_
  cases outcome : middle.catalog.instantiate node.name statics with
  | ok signature =>
      obtain ⟨ports, conditions⟩ := answers middle holds follows _ _ _ outcome
        fun arg inside => written arg inside (kinds arg inside) middle
      obtain ⟨inputs, outputs⟩ := List.forall_mem_append.mp ports
      exact .pure holds ⟨inputs, kept.outputs outputs, conditions⟩
  | error error =>
      cases error with
      | unboundNode => exact kept.reject holds (by simp)
      | paramsArity found expected => exact kept.reject holds (by simp)

private theorem expectArity_stays (kept : standard.Kept) (span : Source.Span) (rule : Rule)
    (count : Nat) (holds : standard.holds checker) :
    Stays standard.toCourse (rule.expectArity span count) checker
      fun _ _ => count = rule.inputs.length := by
  unfold expectArity
  split
  · exact .pure holds ‹_›
  · exact kept.reject holds (by simp)

/-- The conditions of an allowed rule are added on the course. -/
theorem emitAll_stays (kept : standard.Kept) {conditions : List Static.Expr}
    (holds : standard.holds checker)
    (allowed : ∀ condition ∈ conditions, standard.condition checker condition) :
    Stays standard.toCourse (conditions.forM emit) checker fun _ _ => True :=
  (Stays.forM (fun _ _ => trivial) checker holds fun condition inside _ holds follows =>
    kept.emit holds (standard.condition_later follows (allowed condition inside))).imp
      fun _ _ _ _ _ => trivial

end Rule

/-! ## Expressions -/

namespace Env

variable {env : Env}

private theorem typeOf_stays (kept : standard.Kept) (id : Ident) (holds : standard.holds checker)
    (scope : standard.Scope checker env) :
    Stays standard.toCourse (env.typeOf id) checker fun ty next => standard.ty next ty := by
  unfold typeOf
  cases bound : env.get? id.name with
  | none => exact kept.reject holds (by simp)
  | some ty => exact .pure holds (scope _ (Bindings.mem_of_get? bound))

/-- Wherever the expression stands in this scope, its inference stays on the course. -/
def StaysAnywhere (standard : Standard) (env : Env) (expr : Circuit.Expr) : Prop :=
  ∀ {checker : Checker}, standard.holds checker → standard.Answers checker →
    standard.Scope checker env →
    Stays standard.toCourse (env.infer expr) checker
      fun typed next => ∀ ty ∈ typed.tys, standard.ty next ty

/-- Each argument meets a type that is expected of it, or else the course allows that there are more
of the one than of the other. -/
def Paired (standard : Standard) (args : List Circuit.Expr) (expected : List Ty) : Prop :=
  args.length = expected.length ∨ ∀ {checker : Checker}, standard.holds checker →
    standard.fails checker (.fault .unevenLists) checker

/-- Inference of arguments stays on the course if that of each argument does. -/
theorem inferAll_stays (kept : standard.Kept) {args : List Circuit.Expr}
    (each : ∀ arg ∈ args, env.StaysAnywhere standard arg) :
    ∀ {expected : List Ty} {checker : Checker}, Paired standard args expected →
      standard.holds checker → standard.Answers checker → standard.Scope checker env →
      (∀ ty ∈ expected, standard.ty checker ty) →
      Stays standard.toCourse (env.inferAll args expected) checker
        fun typedArgs next => ∀ typed ∈ typedArgs, ∀ ty ∈ typed.tys, standard.ty next ty := by
  induction args with
  | nil =>
      intro expected checker paired holds _ _ _
      cases expected with
      | nil =>
          rw [inferAll]
          exact .pure holds (by simp)
      | cons first rest =>
          rw [inferAll_nil_cons]
          exact .throw (paired.resolve_left (by simp) holds)
  | cons arg args ih =>
      intro expected checker paired holds answers scope allowed
      cases expected with
      | nil =>
          rw [inferAll_cons_nil]
          exact .throw (paired.resolve_left (by simp) holds)
      | cons first rest =>
          obtain ⟨eachFirst, eachRest⟩ := List.forall_mem_cons.mp each
          obtain ⟨firstAllowed, restAllowed⟩ := List.forall_mem_cons.mp allowed
          rw [inferAll]
          refine .bind (eachFirst holds answers scope) fun typed _ holds inferred typedAllowed => ?_
          refine .bind (kept.unifyAt holds (typedAllowed _ typed.ty_mem_tys)
            (standard.ty_later inferred firstAllowed)) fun _ _ holds unified _ => ?_
          have follows := standard.trans inferred unified
          refine .bind (ih eachRest (paired.imp_left (by simp)) holds (answers.later follows)
            (scope.later follows) fun ty inside => standard.ty_later follows (restAllowed ty inside))
            fun typedArgs _ holds further argsAllowed => ?_
          exact .pure holds (List.forall_mem_cons.mpr ⟨fun ty inside =>
            standard.ty_later (standard.trans unified further) (typedAllowed ty inside), argsAllowed⟩)

/-- Once the rule of an operator or a call is known, what is left to do stays on the course. -/
theorem arguments_stay (kept : standard.Kept) {rule : Rule} {args : List Circuit.Expr}
    {finish : List Typed.Expr → Typed.Expr} (span : Source.Span)
    (finished : ∀ typedArgs, (finish typedArgs).tys = rule.output :: Typed.Expr.tysAll typedArgs)
    (each : ∀ arg ∈ args, env.StaysAnywhere standard arg) (holds : standard.holds checker)
    (answers : standard.Answers checker) (scope : standard.Scope checker env)
    (allowed : rule.Allowed standard checker) :
    Stays standard.toCourse (do
        rule.expectArity span args.length
        let typedArgs ← env.inferAll args rule.inputs
        rule.demand
        pure (finish typedArgs)) checker
      fun typed next => ∀ ty ∈ typed.tys, standard.ty next ty := by
  refine .bind (rule.expectArity_stays kept span args.length holds) fun _ _ holds arity same => ?_
  refine .bind (inferAll_stays kept each (.inl same) holds (answers.later arity)
    (scope.later arity) (allowed.later arity).inputs) fun typedArgs _ holds inferred argsAllowed => ?_
  have follows := standard.trans arity inferred
  refine .bind (Rule.emitAll_stays kept holds (allowed.later follows).conditions)
    fun _ _ holds demanded _ => ?_
  refine .pure holds ?_
  rw [finished]
  exact Typed.Expr.forall_tys_node.mpr
    ⟨(allowed.later (standard.trans follows demanded)).output,
      fun arg inside ty mentioned => standard.ty_later demanded (argsAllowed arg inside ty mentioned)⟩

/-- Inference stays on the course, and all types that it finds are allowed. -/
theorem infer_stays (kept : standard.Kept) (generates : standard.Generates) {expr : Circuit.Expr}
    (written : ∀ static ∈ expr.statics, standard.Operand static) :
    env.StaysAnywhere standard expr := by
  induction expr with
  | const span value =>
      intro checker holds _ _
      rw [infer]
      refine .pure holds (List.forall_mem_singleton.mpr ?_)
      cases value with
      | bit _ => exact kept.bit checker
      | bits values => exact kept.bits (kept.literal checker _)
  | wire span id =>
      intro checker holds _ scope
      rw [infer]
      refine .bind (typeOf_stays kept id holds scope) fun ty _ holds _ allowed => ?_
      exact .pure holds (List.forall_mem_singleton.mpr allowed)
  | apply span operator args ih =>
      intro checker holds answers scope
      obtain ⟨own, inArgs⟩ := List.forall_mem_append.mp written
      have each : ∀ arg ∈ args, env.StaysAnywhere standard arg :=
        fun arg inside => ih arg inside fun static mentioned =>
          inArgs static (Circuit.Expr.mem_staticsAll.mpr ⟨arg, inside, mentioned⟩)
      rw [infer]
      refine .bind (Rule.ofOperator_stays kept generates span own holds)
        fun rule _ holds follows allowed => ?_
      exact arguments_stay kept span (fun _ => rfl) each holds (answers.later follows)
        (scope.later follows) allowed
  | call span node statics args ih =>
      intro checker holds answers scope
      obtain ⟨own, inArgs⟩ := List.forall_mem_append.mp written
      have each : ∀ arg ∈ args, env.StaysAnywhere standard arg :=
        fun arg inside => ih arg inside fun static mentioned =>
          inArgs static (Circuit.Expr.mem_staticsAll.mpr ⟨arg, inside, mentioned⟩)
      rw [infer]
      refine .bind (Rule.ofCall_stays kept span node own holds answers)
        fun rule _ holds follows allowed => ?_
      exact arguments_stay kept span (fun _ => rfl) each holds (answers.later follows)
        (scope.later follows) allowed

/-! ## Bodies -/

/-- Annotations with allowed widths stay on the course. -/
theorem annotate_stays (kept : standard.Kept) {wire : Local} {ty : Ty}
    (written : ∀ width ∈ wire.statics, ∀ checker, standard.width checker width)
    (holds : standard.holds checker) (allowed : standard.ty checker ty) :
    Stays standard.toCourse (annotate wire ty) checker fun _ _ => True := by
  unfold annotate
  unfold Local.statics at written
  cases declared : wire.declared with
  | none => exact .pure holds trivial
  | some annotation =>
      rw [declared] at written
      exact kept.unifyAt holds allowed (kept.declared fun width inside => written width inside _)

/-- Declaring local wires stays on the course, and all types are allowed inside. -/
theorem declare_stays (kept : standard.Kept) {locals : List Local} :
    ∀ {env : Env} {checker : Checker},
      (∀ wire ∈ locals, ∀ width ∈ wire.statics, ∀ checker, standard.width checker width) →
      standard.holds checker → standard.Scope checker env →
      Stays standard.toCourse (env.declare locals) checker fun result next =>
        standard.Scope next result.1 ∧ ∀ wire ∈ result.2, standard.ty next wire.ty := by
  induction locals with
  | nil => exact fun _ holds scope => .pure holds ⟨scope, by simp⟩
  | cons wire rest ih =>
      intro env checker written holds scope
      obtain ⟨wireWritten, restWritten⟩ := List.forall_mem_cons.mp written
      rw [declare_cons]
      refine .bind (kept.freshTy holds) fun ty _ holds made allowed => ?_
      refine .bind (annotate_stays kept wireWritten holds allowed) fun _ _ holds annotated _ => ?_
      have allowed := standard.ty_later annotated allowed
      refine .bind (ih restWritten holds
        ((scope.later (standard.trans made annotated)).insert allowed))
        fun result _ holds further introduced => ?_
      obtain ⟨inner, wires⟩ := result
      exact .pure holds ⟨introduced.1,
        List.forall_mem_cons.mpr ⟨standard.ty_later further allowed, introduced.2⟩⟩

/-- A pattern has an allowed type if the types in scope are allowed. -/
theorem patternTy_stays (kept : standard.Kept) (pattern : Pattern) (holds : standard.holds checker)
    (scope : standard.Scope checker env) :
    Stays standard.toCourse (env.patternTy pattern) checker fun ty next => standard.ty next ty := by
  cases pattern with
  | single id => exact typeOf_stays kept id holds scope
  | tuple ids =>
      refine .bind (.mapM_tys id holds fun id _ middle holds follows =>
        typeOf_stays kept id holds (scope.later follows)) fun tys _ holds _ each => ?_
      exact .pure holds (kept.product each)

private theorem check_stays (kept : standard.Kept) (generates : standard.Generates)
    {expr : Circuit.Expr} {expected : Ty}
    (written : ∀ static ∈ expr.statics, standard.Operand static) (holds : standard.holds checker)
    (answers : standard.Answers checker) (scope : standard.Scope checker env)
    (allowed : standard.ty checker expected) :
    Stays standard.toCourse (env.check expr expected) checker
      fun typed next => ∀ ty ∈ typed.tys, standard.ty next ty := by
  refine .bind (infer_stays kept generates written holds answers scope)
    fun typed _ holds inferred typedAllowed => ?_
  refine .bind (kept.unifyAt holds (typedAllowed _ typed.ty_mem_tys)
    (standard.ty_later inferred allowed)) fun _ _ holds unified _ => ?_
  exact .pure holds fun ty inside => standard.ty_later unified (typedAllowed ty inside)

/-- The check of an equation stays on the course. -/
theorem checkEquation_stays (kept : standard.Kept) (generates : standard.Generates)
    {equation : Equation} (written : ∀ static ∈ equation.value.statics, standard.Operand static)
    (holds : standard.holds checker) (answers : standard.Answers checker)
    (scope : standard.Scope checker env) :
    Stays standard.toCourse (env.checkEquation equation) checker
      fun typed next => ∀ ty ∈ typed.value.tys, standard.ty next ty := by
  refine .bind (patternTy_stays kept equation.pattern holds scope)
    fun expected _ holds patterned allowed => ?_
  refine .bind (check_stays kept generates written holds (answers.later patterned)
    (scope.later patterned) allowed) fun value _ holds _ valueAllowed => ?_
  exact .pure holds valueAllowed

/-- Where a condition is assumed, the types in scope stay allowed. -/
theorem substituteEntry_stays (kept : standard.Kept) {condition value : Static.Expr} {name : String}
    {entry : String × Ty} (guard : standard.Guard condition) (kind : condition.HasKind .bool)
    (equation : condition.equation? = some (name, value)) (holds : standard.holds checker)
    (allowed : standard.ty checker entry.2) :
    Stays standard.toCourse (substituteEntry (Bindings.empty.insert name value) entry) checker
      fun result next => standard.ty next result.2 := by
  rw [substituteEntry, TypeStore.substitute, onTypes_bind, bind_assoc]
  refine .bind (kept.resolve holds allowed) fun resolved next holds _ resolvedAllowed => ?_
  exact .pure holds (guard kind name value equation next resolved resolvedAllowed)

/-- Assuming an allowed guard stays on the course, and the types in scope stay allowed. -/
theorem assume_stays (kept : standard.Kept) {condition : Static.Expr}
    (guard : standard.Guard condition) (kind : condition.HasKind .bool)
    (holds : standard.holds checker) (scope : standard.Scope checker env) :
    Stays standard.toCourse (env.assume condition) checker
      fun assumed next => standard.Scope next assumed := by
  unfold assume
  cases equation : condition.equation? with
  | none => exact .pure holds scope
  | some solution =>
      obtain ⟨name, value⟩ := solution
      exact .bind (.mapM_tys Prod.snd holds fun entry inside _ holds follows =>
        substituteEntry_stays kept guard kind equation holds
          (standard.ty_later follows (scope entry inside)))
        fun entries _ holds _ each => .pure holds each

/-- All types that are found in a body are allowed. -/
theorem checkBlock_stays (kept : standard.Kept) (generates : standard.Generates) {block : Block} :
    ∀ {env : Env} {checker : Checker}, standard.Governs block → standard.holds checker →
      standard.Answers checker → standard.Scope checker env →
      Stays standard.toCourse (env.checkBlock block) checker
        fun typed next => ∀ ty ∈ typed.tys, standard.ty next ty := by
  induction block with
  | system span locals equations =>
      intro env checker governs holds answers scope
      refine .bind (declare_stays kept governs.1 holds scope)
        fun result declared holds follows introduced => ?_
      obtain ⟨inner, wires⟩ := result
      refine .bind (.mapM_all (fun further each ty inside => standard.ty_later further (each ty inside))
        holds fun equation inside _ holds further => checkEquation_stays kept generates
          (governs.2 equation inside) holds (answers.later (standard.trans follows further))
          (introduced.1.later further)) fun typed _ holds further each => ?_
      exact .pure holds (Typed.Block.forall_tys_system.mpr
        ⟨fun wire inside => standard.ty_later further (introduced.2 wire inside), each⟩)
  | choice span condition onTrue onFalse ihTrue ihFalse =>
      intro env checker governs holds answers scope
      obtain ⟨guard, governsTrue, governsFalse⟩ := governs
      refine .bind (expectKind_stays kept span condition .bool holds)
        fun _ _ holds expected kind => ?_
      refine .bind (assume_stays kept guard kind holds (scope.later expected))
        fun assumed _ holds refined assumedScope => ?_
      have follows := standard.trans expected refined
      refine .bind (ihTrue governsTrue holds (answers.later follows) assumedScope)
        fun typedTrue _ holds checkedTrue first => ?_
      have follows := standard.trans follows checkedTrue
      refine .bind (ihFalse governsFalse holds (answers.later follows) (scope.later follows))
        fun typedFalse _ holds checkedFalse second => ?_
      exact .pure holds (Typed.Block.forall_tys_choice.mpr
        ⟨fun ty inside => standard.ty_later checkedFalse (first ty inside), second⟩)

end Env

/-! ## Nodes -/

/-- Declaring a port with allowed widths stays on the course. -/
theorem Circuit.Port.declare_stays (kept : standard.Kept) {port : Port}
    (written : ∀ width ∈ port.declared.statics, ∀ checker, standard.width checker width)
    (holds : standard.holds checker) :
    Stays standard.toCourse port.declare checker fun wire next => standard.ty next wire.ty := by
  refine .bind (kept.freshTy holds) fun ty _ holds _ allowed => ?_
  refine .bind (kept.unifyAt holds allowed (kept.declared fun width inside => written width inside _))
    fun _ _ holds unified _ => ?_
  exact .pure holds (standard.ty_later unified allowed)

/-- Declaring ports with allowed widths stays on the course. -/
theorem Circuit.Port.declareAll_stays (kept : standard.Kept) {ports : List Port}
    (written : ∀ port ∈ ports, ∀ width ∈ port.declared.statics, ∀ checker,
      standard.width checker width) (holds : standard.holds checker) :
    Stays standard.toCourse (ports.mapM Port.declare) checker
      fun wires next => ∀ wire ∈ wires, standard.ty next wire.ty :=
  .mapM_tys Typed.Wire.ty holds fun port inside _ holds _ =>
    Port.declare_stays kept (written port inside) holds

/-- Following the links in an allowed type of a wire stays on the course. -/
theorem Typed.Wire.resolve_stays (kept : standard.Kept) {wire : Typed.Wire}
    (holds : standard.holds checker) (allowed : standard.ty checker wire.ty) :
    Stays standard.toCourse (onTypes wire.resolve) checker
      fun resolved next => standard.ty next resolved.ty := by
  rw [resolve, onTypes_bind]
  exact .bind (kept.resolve holds allowed) fun _ _ holds _ resolved => .pure holds resolved

/-- Following the links in allowed types of wires stays on the course. -/
theorem Typed.Wire.resolveAll_stays (kept : standard.Kept) {wires : List Typed.Wire}
    (holds : standard.holds checker) (allowed : ∀ wire ∈ wires, standard.ty checker wire.ty) :
    Stays standard.toCourse (wires.mapM fun wire => onTypes wire.resolve) checker
      fun resolved next => ∀ wire ∈ resolved, standard.ty next wire.ty :=
  .mapM_tys Typed.Wire.ty holds fun wire inside _ holds follows =>
    resolve_stays kept holds (standard.ty_later follows (allowed wire inside))

/-- What the check of a node does around its body stays on the course: its signatures are made known,
pending conditions are taken out, and the typed body is resolved. -/
structure Standard.Settles (standard : Standard) (node : Node) : Prop where
  register : ∀ {checker inputs outputs} constraints, standard.holds checker →
    (∀ wire ∈ inputs ++ outputs, standard.ty checker wire.ty) →
    Stays standard.toCourse
      (CheckM.register node.id.name (node.signature inputs outputs constraints)) checker
      fun _ _ => True
  drain : ∀ {checker}, standard.holds checker →
    Stays standard.toCourse CheckM.drain checker fun _ _ => True
  finish : ∀ {checker} {body : Typed.Block}, standard.holds checker →
    (∀ ty ∈ body.tys, standard.ty checker ty) →
    Stays standard.toCourse (onTypes body.resolve) checker fun _ _ => True

namespace Circuit.Node

variable {node : Node}

/-- Introducing a node stays on the course, and its ports get allowed types. -/
theorem introduce_stays (kept : standard.Kept) (settles : standard.Settles node)
    (written : ∀ port ∈ node.inputs ++ node.outputs, ∀ width ∈ port.declared.statics, ∀ checker,
      standard.width checker width) (holds : standard.holds checker) :
    Stays standard.toCourse node.introduce checker
      fun ports next => ∀ wire ∈ ports.1 ++ ports.2, standard.ty next wire.ty := by
  obtain ⟨inputsWritten, outputsWritten⟩ := List.forall_mem_append.mp written
  refine .bind (Port.declareAll_stays kept inputsWritten holds) fun inputs _ holds _ inputsFine => ?_
  refine .bind (Port.declareAll_stays kept outputsWritten holds)
    fun outputs _ holds declared outputsFine => ?_
  have inputsFine := fun wire inside => standard.ty_later declared (inputsFine wire inside)
  refine .bind (Typed.Wire.resolveAll_stays kept holds inputsFine)
    fun knownInputs _ holds first knownFine => ?_
  refine .bind (Typed.Wire.resolveAll_stays kept holds fun wire inside =>
    standard.ty_later first (outputsFine wire inside))
    fun knownOutputs _ holds second othersFine => ?_
  refine .bind (settles.register [] holds (List.forall_mem_append.mpr
    ⟨fun wire inside => standard.ty_later second (knownFine wire inside), othersFine⟩))
    fun _ _ holds third _ => ?_
  have follows := standard.trans first (standard.trans second third)
  exact .pure holds (List.forall_mem_append.mpr
    ⟨fun wire inside => standard.ty_later follows (inputsFine wire inside),
      fun wire inside => standard.ty_later follows (outputsFine wire inside)⟩)

/-- Solving stays on the course, whether the conditions can be met or not. -/
theorem solvePending_stays (kept : standard.Kept) (settles : standard.Settles node)
    (holds : standard.holds checker) :
    Stays standard.toCourse node.solvePending checker fun _ _ => True := by
  refine .bind (settles.drain holds) fun pending _ holds _ _ => ?_
  cases Static.solve node.paramNames pending with
  | ok solved => exact .pure holds trivial
  | error contradiction => exact kept.reject holds (by simp)

/-- Concluding a node with allowed types stays on the course. -/
theorem conclude_stays (kept : standard.Kept) (settles : standard.Settles node)
    {inputs outputs : List Typed.Wire} {body : Typed.Block} (holds : standard.holds checker)
    (allowed : ∀ wire ∈ inputs ++ outputs, standard.ty checker wire.ty)
    (bodyFine : ∀ ty ∈ body.tys, standard.ty checker ty) :
    Stays standard.toCourse (node.conclude inputs outputs body) checker fun _ _ => True := by
  obtain ⟨inputsFine, outputsFine⟩ := List.forall_mem_append.mp allowed
  refine .bind (settles.finish holds bodyFine) fun _ _ holds finished _ => ?_
  refine .bind (Typed.Wire.resolveAll_stays kept holds fun wire inside =>
    standard.ty_later finished (inputsFine wire inside)) fun typedInputs _ holds first typedFine => ?_
  refine .bind (Typed.Wire.resolveAll_stays kept holds fun wire inside =>
    standard.ty_later (standard.trans finished first) (outputsFine wire inside))
    fun typedOutputs _ holds second othersFine => ?_
  refine .bind (solvePending_stays kept settles holds) fun constraints _ holds solved _ => ?_
  refine .bind (settles.register constraints holds (List.forall_mem_append.mpr
    ⟨fun wire inside => standard.ty_later (standard.trans second solved) (typedFine wire inside),
      fun wire inside => standard.ty_later solved (othersFine wire inside)⟩)) fun _ _ holds _ _ => ?_
  exact .pure holds trivial

/-- The check of a definition stays on the course, from its ports to its signature. -/
theorem checkDefinition_stays (kept : standard.Kept) (generates : standard.Generates)
    (settles : standard.Settles node)
    (answers : ∀ {checker}, standard.holds checker → standard.Answers checker)
    (written : ∀ port ∈ node.inputs ++ node.outputs, ∀ width ∈ port.declared.statics, ∀ checker,
      standard.width checker width) (governs : standard.Governs node.body)
    (holds : standard.holds checker) :
    Stays standard.toCourse node.checkDefinition checker fun _ _ => True := by
  rw [checkDefinition_eq]
  refine .bind (introduce_stays kept settles written holds) fun ports _ holds _ allowed => ?_
  refine .bind (Env.checkBlock_stays kept generates governs holds (answers holds)
    (Standard.scope_portEnv allowed)) fun body _ holds follows bodyFine => ?_
  exact conclude_stays kept settles holds (fun wire inside =>
    standard.ty_later follows (allowed wire inside)) bodyFine

end Circuit.Node

end CircuitWidths
