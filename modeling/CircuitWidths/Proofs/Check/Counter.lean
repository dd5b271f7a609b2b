import CircuitWidths.Proofs.Check.Standards

/-!
# The counter of generated widths

Generated widths are numbered.  No step of checking takes the counter back, and most leave it alone.
Both are said of a motion, a relation of states that allows at least to rest.  What generates no
width moves in every motion; what may generate widths moves in the one that goes forward.
-/

namespace CircuitWidths

open CheckM Circuit

namespace Checker

/-- Widths may have been generated. -/
structure Advances (checker next : Checker) : Prop where
  settings : next.settings = checker.settings
  nextWidth : checker.nextWidth ≤ next.nextWidth

/-- No width has been generated. -/
structure Rests (checker next : Checker) : Prop where
  settings : next.settings = checker.settings
  nextWidth : next.nextWidth = checker.nextWidth

variable {checker middle next : Checker}

theorem Advances.refl (checker : Checker) : checker.Advances checker := ⟨rfl, le_rfl⟩

theorem Advances.trans (first : checker.Advances middle) (second : middle.Advances next) :
    checker.Advances next :=
  ⟨second.settings.trans first.settings, first.nextWidth.trans second.nextWidth⟩

theorem Rests.refl (checker : Checker) : checker.Rests checker := ⟨rfl, rfl⟩

theorem Rests.trans (first : checker.Rests middle) (second : middle.Rests next) :
    checker.Rests next :=
  ⟨second.settings.trans first.settings, second.nextWidth.trans first.nextWidth⟩

theorem Rests.symm (rests : checker.Rests next) : next.Rests checker :=
  ⟨rests.settings.symm, rests.nextWidth.symm⟩

/-- A counter that stays where it is has not gone back. -/
theorem Rests.advances (rests : checker.Rests next) : checker.Advances next :=
  ⟨rests.settings, rests.nextWidth.ge⟩

end Checker

/-- How the counter may go on: at least it may stay where it is. -/
structure Motion where
  leads : Checker → Checker → Prop
  rests : ∀ {checker next : Checker}, checker.Rests next → leads checker next
  trans : ∀ {checker middle next}, leads checker middle → leads middle next → leads checker next

namespace Motion

/-- The counter is left alone. -/
abbrev resting : Motion := ⟨Checker.Rests, id, .trans⟩

/-- The counter is never taken back. -/
abbrev advancing : Motion := ⟨Checker.Advances, Checker.Rests.advances, .trans⟩

/-- Only the counter is watched, whatever the outcome of a step is. -/
abbrev course (motion : Motion) (ε : Type) : Course ε Checker where
  holds := fun _ => True
  follows := motion.leads
  fails := fun checker _ next => motion.leads checker next
  refl := fun checker => motion.rests (.refl checker)
  trans := motion.trans
  fails_later := motion.trans

/-- Nothing is asked of types, widths and conditions. -/
abbrev standard (motion : Motion) : Standard := .permissive (motion.course Stop)

end Motion

variable {motion : Motion} {ε α β : Type} {checker next : Checker}

/-- Whatever its outcome is, the step leads on in the motion. -/
def Moves (motion : Motion) (step : EStateM ε Checker α) : Prop :=
  ∀ checker, Stays (motion.course ε) step checker fun _ _ => True

/-- The step generates no width. -/
abbrev Steady (step : EStateM ε Checker α) : Prop := Moves .resting step

/-- The step never takes the counter back. -/
abbrev Advancing (step : EStateM ε Checker α) : Prop := Moves .advancing step

namespace Moves

variable {step : EStateM ε Checker α} {rest : α → EStateM ε Checker β}

private theorem of_stays {step : CheckM α} {returns : α → Checker → Prop}
    (stays : ∀ checker, Stays motion.standard.toCourse step checker returns) : Moves motion step :=
  fun checker => (stays checker).imp fun _ _ _ _ _ => trivial

private theorem of_final
    (moved : ∀ checker : Checker, motion.leads checker (finalState (step checker))) :
    Moves motion step := by
  intro checker
  have ended := moved checker
  cases run : step checker with
  | ok value next => exact .of_ok run ⟨trivial, by rwa [run] at ended, trivial⟩
  | error error next => exact .of_error run (by rwa [run] at ended)

protected theorem pure (value : α) : Moves motion (pure value : EStateM ε Checker α) :=
  fun _ => .pure trivial trivial

/-- Steps in sequence move as each of them does. -/
theorem bind (first : Moves motion step) (second : ∀ value, Moves motion (rest value)) :
    Moves motion (step >>= rest) :=
  fun checker => .bind (first checker) fun value middle _ _ _ => second value middle

/-- A step for each item in turn moves as the steps do. -/
theorem mapM {each : α → EStateM ε Checker β} (eachMoves : ∀ item, Moves motion (each item))
    (items : List α) : Moves motion (items.mapM each) :=
  fun _ => (Stays.mapM_all (fun _ _ => trivial) trivial
    fun item _ middle _ _ => eachMoves item middle).imp fun _ _ _ _ _ => trivial

private theorem leads (moves : Moves motion step) (checker : Checker) :
    motion.leads checker (finalState (step checker)) :=
  Ends.final _ (moves checker) (fun _ _ ended => ended.2.1) fun _ _ ended => ended

/-- A steady step leaves the counter where it is, whatever its outcome. -/
theorem rests (steady : Steady step) (checker : Checker) :
    checker.Rests (finalState (step checker)) :=
  steady.leads checker

/-- A steady step that returns has left the counter where it was. -/
theorem rested {value : α} (steady : Steady step) (run : step checker = .ok value next) :
    checker.Rests next :=
  ((steady checker).returned run).2.1

/-- An advancing step never turns the counter back, whatever its outcome. -/
theorem advances (advancing : Advancing step) (checker : Checker) :
    checker.Advances (finalState (step checker)) :=
  advancing.leads checker

/-- An advancing step that returns has not turned the counter back. -/
theorem advanced {value : α} (advancing : Advancing step) (run : step checker = .ok value next) :
    checker.Advances next :=
  ((advancing checker).returned run).2.1

end Moves

/-- What is done after a step begins where the step has left off. -/
theorem Advancing.follows {step : EStateM ε Checker α} {rest : α → EStateM ε Checker β}
    (continues : ∀ value, Advancing (rest value)) (checker : Checker) :
    (finalState (step checker)).Advances (finalState ((step >>= rest) checker)) := by
  cases run : step checker with
  | ok value next =>
      rw [bind_of_ok run]
      exact (continues value).advances next
  | error error next =>
      rw [bind_of_error run]
      exact .refl next

/-! ## Motions are kept -/

namespace CheckM

/-- Work on the type store does not touch the counter. -/
theorem onTypes_moves (step : StoreM α) : Moves motion (onTypes step) := by
  intro checker
  apply onTypes_ends
  cases run : step checker.types with
  | ok value types => exact .of_ok run ⟨trivial, motion.rests ⟨rfl, rfl⟩, trivial⟩
  | error fault types => exact .of_error run (motion.rests ⟨rfl, rfl⟩)

private theorem tryUnify_moves (found expected : Ty) : Moves motion (tryUnify found expected) := by
  intro checker
  apply tryUnify_ends
  cases run : Unification.unify found expected checker.toUnification with
  | ok value state => exact .of_ok run ⟨trivial, motion.rests ⟨rfl, rfl⟩, trivial⟩
  | error error state => exact .of_error run ⟨trivial, motion.rests ⟨rfl, rfl⟩, trivial⟩

/-- Making types equal does not touch the counter, also when it fails. -/
theorem unifyAt_moves (span : Source.Span) (found expected : Ty) :
    Moves motion (unifyAt span found expected) :=
  fun checker => unifyAt_stays (fun _ _ => motion.rests (.refl _))
    (tryUnify_moves found expected checker) fun _ _ middle _ _ => onTypes_moves _ middle

/-- Type variables are counted in the type store, not by the counter. -/
theorem freshTy_moves : Moves motion freshTy :=
  fun _ => .of_ok rfl ⟨trivial, motion.rests ⟨rfl, rfl⟩, trivial⟩

/-- Pending conditions do not touch the counter. -/
theorem emit_moves (condition : Static.Expr) : Moves motion (emit condition) :=
  fun _ => .of_ok rfl ⟨trivial, motion.rests ⟨rfl, rfl⟩, trivial⟩

/-- Generating widths advances the counter. -/
theorem generate_advancing (count : Nat) : Advancing (generate count) :=
  fun _ => .of_ok rfl ⟨trivial, ⟨rfl, Nat.le_add_right _ _⟩, trivial⟩

/-- Generating a single width advances the counter. -/
theorem freshWidth_advancing : Advancing freshWidth := by
  rw [freshWidth_eq]
  exact .bind (generate_advancing 1) fun _ => .pure _

end CheckM

namespace Motion

private theorem kept (motion : Motion) : motion.standard.Kept :=
  Standard.kept_permissive (fun _ => motion.rests (.refl _)) (fun _ => freshTy_moves _)
    (fun _ _ => onTypes_moves _ _) (fun _ _ _ _ => unifyAt_moves _ _ _ _) fun _ _ => emit_moves _ _

private theorem settles (motion : Motion) (node : Node) : motion.standard.Settles node where
  register := fun _ _ _ => .of_ok rfl ⟨trivial, motion.rests ⟨rfl, rfl⟩, trivial⟩
  drain := fun _ => .of_ok rfl ⟨trivial, motion.rests ⟨rfl, rfl⟩, trivial⟩
  finish := fun _ _ => onTypes_moves _ _

private theorem generates : advancing.standard.Generates :=
  fun count _ => (generate_advancing count _).imp fun _ _ _ _ _ _ _ => trivial

/-- Uneven lists stop a step, but do not take the counter back. -/
theorem paired (args : List Circuit.Expr) (expected : List Ty) :
    Env.Paired motion.standard args expected :=
  .inr fun _ => motion.rests (.refl _)

end Motion

/-! ## What generates no widths -/

namespace Rule

/-- The rule of a call generates no widths. -/
theorem ofCall_moves (span : Source.Span) (node : Ident) (statics : List Static.Expr) :
    Moves motion (ofCall span node statics) :=
  .of_stays fun checker => ofCall_stays motion.kept span node (fun _ _ _ _ => trivial) trivial
    (Standard.answers_permissive checker)

/-- Adding the conditions of a rule does not touch the counter. -/
theorem emitAll_moves (conditions : List Static.Expr) : Moves motion (conditions.forM emit) :=
  .of_stays fun _ => emitAll_stays motion.kept trivial fun _ _ => trivial

end Rule

namespace Env

/-- Looking up the wires of a pattern does not touch the counter. -/
theorem patternTy_moves (env : Env) (pattern : Pattern) : Moves motion (env.patternTy pattern) :=
  .of_stays fun _ => patternTy_stays motion.kept pattern trivial fun _ _ => trivial

/-- An annotation generates no widths. -/
theorem annotate_moves (wire : Local) (ty : Ty) : Moves motion (annotate wire ty) :=
  .of_stays fun _ => annotate_stays motion.kept (fun _ _ _ => trivial) trivial trivial

/-- Declaring local wires generates no widths. -/
theorem declare_moves (locals : List Local) (env : Env) : Moves motion (env.declare locals) :=
  .of_stays fun _ => declare_stays motion.kept (fun _ _ _ _ _ => trivial) trivial
    fun _ _ => trivial

/-- Substitution in a type in scope does not touch the counter. -/
theorem substituteEntry_moves (bindings : Bindings Static.Expr) (entry : String × Ty) :
    Moves motion (substituteEntry bindings entry) :=
  .bind (onTypes_moves _) fun _ => .pure _

/-- Assuming a condition does not touch the counter. -/
theorem assume_moves (env : Env) (condition : Static.Expr) :
    Moves motion (env.assume condition) := by
  unfold assume
  split
  · exact .bind (.mapM (substituteEntry_moves _) env.entries) fun _ => .pure _
  · exact .pure env

end Env

namespace Circuit

/-- Declaring a port generates no widths. -/
theorem Port.declare_moves (port : Port) : Moves motion port.declare :=
  .of_stays fun _ => declare_stays motion.kept (fun _ _ _ => trivial) trivial

/-- Following the links in the types of wires does not touch the counter. -/
theorem resolveWires_moves (wires : List Typed.Wire) :
    Moves motion (wires.mapM fun wire => onTypes wire.resolve) :=
  .mapM (fun wire => onTypes_moves wire.resolve) wires

namespace Node

/-- Solving generates no widths, whether it succeeds or not. -/
theorem solvePending_moves (node : Node) : Moves motion node.solvePending :=
  .of_stays fun _ => solvePending_stays motion.kept (motion.settles node) trivial

/-- No widths are generated before the body of a node. -/
theorem introduce_moves (node : Node) : Moves motion node.introduce :=
  .of_stays fun _ => introduce_stays motion.kept (motion.settles node) (fun _ _ _ _ _ => trivial)
    trivial

/-- No widths are generated after the body of a node. -/
theorem conclude_moves (node : Node) (inputs outputs : List Typed.Wire) (body : Typed.Block) :
    Moves motion (node.conclude inputs outputs body) :=
  .of_stays fun _ => conclude_stays motion.kept (motion.settles node) trivial (fun _ _ => trivial)
    fun _ _ => trivial

end Node

end Circuit

/-! ## What may generate widths -/

/-- The rule of an operator may generate widths. -/
theorem Rule.ofOperator_advancing (span : Source.Span) (operator : Operator) :
    Advancing (ofOperator span operator) :=
  .of_stays fun _ => ofOperator_stays (Motion.kept _) Motion.generates span
    (fun _ _ _ _ => trivial) trivial

namespace Env

private theorem infer_staysAnywhere (env : Env) (expr : Circuit.Expr) :
    env.StaysAnywhere Motion.advancing.standard expr :=
  infer_stays (Motion.kept _) Motion.generates fun _ _ _ _ => trivial

/-- Inference never turns the counter back. -/
theorem infer_advancing (env : Env) (expr : Circuit.Expr) : Advancing (env.infer expr) :=
  .of_stays fun checker =>
    env.infer_staysAnywhere expr trivial (Standard.answers_permissive checker) fun _ _ => trivial

/-- Inference of arguments never turns the counter back, also where it fails. -/
theorem inferAll_advancing (env : Env) (args : List Circuit.Expr) (expected : List Ty) :
    Advancing (env.inferAll args expected) :=
  .of_stays fun checker => inferAll_stays (Motion.kept _) (fun arg _ => env.infer_staysAnywhere arg)
    (Motion.paired args expected) trivial (Standard.answers_permissive checker) (fun _ _ => trivial)
    fun _ _ => trivial

/-- What is left to do when the rule of an operator or a call is known. -/
theorem arguments_advancing (env : Env) (args : List Circuit.Expr) (span : Source.Span)
    (rule : Rule) {finish : List Typed.Expr → Typed.Expr}
    (finished : ∀ typedArgs, (finish typedArgs).tys = rule.output :: Typed.Expr.tysAll typedArgs) :
    Advancing (do
      rule.expectArity span args.length
      let typedArgs ← env.inferAll args rule.inputs
      rule.demand
      pure (finish typedArgs) : CheckM Typed.Expr) :=
  .of_stays fun checker => arguments_stay (Motion.kept _) span finished
    (fun arg _ => env.infer_staysAnywhere arg) trivial (Standard.answers_permissive checker)
    (fun _ _ => trivial) ⟨fun _ _ => trivial, trivial, fun _ _ => trivial⟩

/-- The check of an equation never turns the counter back. -/
theorem checkEquation_advancing (env : Env) (equation : Equation) :
    Advancing (env.checkEquation equation) :=
  .of_stays fun checker => checkEquation_stays (Motion.kept _) Motion.generates
    (fun _ _ _ _ => trivial) trivial (Standard.answers_permissive checker) fun _ _ => trivial

/-- The check of a body never turns the counter back. -/
theorem checkBlock_advancing (block : Block) (env : Env) : Advancing (env.checkBlock block) :=
  .of_stays fun checker => checkBlock_stays (Motion.kept _) Motion.generates
    (Standard.governs_permissive block) trivial (Standard.answers_permissive checker)
    fun _ _ => trivial

end Env

namespace Circuit

/-- The check of a definition never turns the counter back. -/
theorem Node.checkDefinition_advancing (node : Node) : Advancing node.checkDefinition :=
  .of_stays fun _ => checkDefinition_stays (Motion.kept _) Motion.generates (Motion.settles _ node)
    (fun _ => Standard.answers_permissive _) (fun _ _ _ _ _ => trivial)
    (Standard.governs_permissive node.body) trivial

/-- Reporting a rejection generates nothing. -/
theorem Node.check_rests (node : Node) (checker : Checker) :
    (finalState (node.checkDefinition checker)).Rests (finalState (node.check checker)) := by
  unfold check
  cases node.checkDefinition checker with
  | ok typed next => exact .refl next
  | error stop next =>
      cases stop with
      | rejected rejection => exact ⟨rfl, rfl⟩
      | fault fault => exact .refl next

/-- The check of a node never turns the counter back, whether the node is accepted or not. -/
theorem Node.check_advancing (node : Node) : Advancing node.check :=
  .of_final fun checker =>
    (node.checkDefinition_advancing.advances checker).trans (node.check_rests checker).advances

end Circuit

end CircuitWidths
