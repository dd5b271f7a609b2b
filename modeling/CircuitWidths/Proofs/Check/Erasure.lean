import CircuitWidths.Proofs.Check.Programs
import CircuitWidths.Proofs.Check.TypedLikeness

/-!
# Typed circuits without their types

Taking the types out of a typed circuit gives a circuit again (`erase`).  A typed circuit does not
keep where the name of a wire or of a called node stands, nor which type was declared for a local
wire; the source without these is bare (`bare`).  What checking makes of a body erases to the bare
body: nothing is left out, added or reordered (`Env.checkBlock_erase`), and resolving types does not
change that (`Typed.Block.Like.erase_eq`).
-/

namespace CircuitWidths

open CheckM Circuit

namespace Circuit

mutual

/-- The expression as far as typed expressions keep it: names stand where their expression does. -/
def Expr.bare : Expr → Expr
  | .const span value => .const span value
  | .wire span id => .wire span ⟨id.name, span⟩
  | .apply span operator args => .apply span operator (Expr.bareAll args)
  | .call span node statics args => .call span ⟨node.name, span⟩ statics (Expr.bareAll args)

/-- The expressions as far as typed expressions keep them. -/
def Expr.bareAll : List Expr → List Expr
  | [] => []
  | expr :: rest => expr.bare :: Expr.bareAll rest

end

/-- The wire without its declared type. -/
def Local.bare (wire : Local) : Local := { wire with declared := none }

/-- The equation as far as typed equations keep it. -/
def Equation.bare (equation : Equation) : Equation := { equation with value := equation.value.bare }

/-- The body as far as typed bodies keep it. -/
def Block.bare : Block → Block
  | .system span locals equations =>
    .system span (locals.map Local.bare) (equations.map Equation.bare)
  | .choice span condition onTrue onFalse => .choice span condition onTrue.bare onFalse.bare

end Circuit

namespace Typed

mutual

/-- The expression without its types. -/
def Expr.erase : Typed.Expr → Circuit.Expr
  | .const span _ value => .const span value
  | .wire span _ name => .wire span ⟨name, span⟩
  | .apply span _ operator args => .apply span operator (Expr.eraseAll args)
  | .call span _ node statics args => .call span ⟨node, span⟩ statics (Expr.eraseAll args)

/-- The expressions without their types. -/
def Expr.eraseAll : List Typed.Expr → List Circuit.Expr
  | [] => []
  | expr :: rest => expr.erase :: Expr.eraseAll rest

end

/-- The wire without its type. -/
def Wire.erase (wire : Wire) : Local := ⟨wire.id, none⟩

/-- The equation without the types in its value. -/
def Equation.erase (equation : Typed.Equation) : Circuit.Equation :=
  ⟨equation.span, equation.pattern, equation.value.erase⟩

/-- The body without its types. -/
def Block.erase : Typed.Block → Circuit.Block
  | .system span wires equations =>
    .system span (wires.map Wire.erase) (equations.map Equation.erase)
  | .choice span condition onTrue onFalse => .choice span condition onTrue.erase onFalse.erase

private theorem Expr.eraseAll_eq_map (exprs : List Typed.Expr) :
    Expr.eraseAll exprs = exprs.map Expr.erase := by
  induction exprs with
  | nil => rfl
  | cons expr rest ih => rw [Expr.eraseAll, ih, List.map_cons]

/-! ## Circuits that differ in types only -/

section Like

variable {tys : Ty → Ty → Prop}

private theorem Expr.Like.erase_eq {expr : Typed.Expr} :
    ∀ {other : Typed.Expr}, expr.Like tys other → expr.erase = other.erase := by
  have eraseArgs : ∀ {args others : List Typed.Expr},
      (∀ arg ∈ args, ∀ {other : Typed.Expr}, arg.Like tys other → arg.erase = other.erase) →
      List.Forall₂ (Expr.Like tys) args others → Expr.eraseAll args = Expr.eraseAll others := by
    intro args others each like
    rw [Expr.eraseAll_eq_map, Expr.eraseAll_eq_map]
    exact map_eq_map_of_forall₂ (forall₂_imp_of_mem like fun arg inside _ => each arg inside)
      fun _ _ same => same
  induction expr using Expr.inductionOnArgs with
  | const span ty value =>
      intro other like
      cases like with
      | const _ => rfl
  | wire span ty name =>
      intro other like
      cases like with
      | wire _ => rfl
  | apply span ty operator args ih =>
      intro other like
      cases like with
      | apply _ each => rw [Expr.erase, Expr.erase, eraseArgs ih each]
  | call span ty node statics args ih =>
      intro other like
      cases like with
      | call _ each => rw [Expr.erase, Expr.erase, eraseArgs ih each]

private theorem Equation.Like.erase_eq {equation other : Typed.Equation}
    (like : equation.Like tys other) : equation.erase = other.erase := by
  rw [Equation.erase, Equation.erase, like.span, like.pattern, like.value.erase_eq]

/-- Typed bodies that differ in types only erase to the same body. -/
theorem Block.Like.erase_eq {block other : Typed.Block} (like : block.Like tys other) :
    block.erase = other.erase := by
  induction like with
  | system wiresLike equationsLike =>
      have sameWires := map_eq_map_of_forall₂ wiresLike fun wire other wireLike =>
        congrArg (fun id => (⟨id, none⟩ : Local)) wireLike.id
      have sameEquations := map_eq_map_of_forall₂ equationsLike fun _ _ each => each.erase_eq
      exact congrArg₂ (Circuit.Block.system _) sameWires sameEquations
  | choice _ _ sameTrue sameFalse => rw [Block.erase, Block.erase, sameTrue, sameFalse]

end Like

end Typed

/-! ## What checking makes of a body -/

/-- As many arguments as the rule asks for were given. -/
theorem Rule.length_of_expectArity {span : Source.Span} {rule : Rule} {count : Nat}
    {checker next : Checker} (run : rule.expectArity span count checker = .ok () next) :
    count = rule.inputs.length := by
  unfold Rule.expectArity at run
  split at run
  · assumption
  · cases run

namespace Env

variable {env : Env} {checker next : Checker}

private theorem inferAll_erase {args : List Circuit.Expr}
    (each : ∀ arg ∈ args, ∀ {checker next : Checker} {typed : Typed.Expr},
      env.infer arg checker = .ok typed next → typed.erase = arg.bare) :
    ∀ {expected : List Ty} {checker next : Checker} {typedArgs : List Typed.Expr},
      args.length = expected.length → env.inferAll args expected checker = .ok typedArgs next →
      Typed.Expr.eraseAll typedArgs = Expr.bareAll args := by
  induction args with
  | nil =>
      intro expected checker next typedArgs length run
      obtain rfl := List.length_eq_zero_iff.mp length.symm
      cases run
      rfl
  | cons arg args ih =>
      intro expected checker next typedArgs length run
      obtain ⟨ty, rest, rfl⟩ := List.exists_cons_of_length_eq_add_one length.symm
      obtain ⟨eachFirst, eachRest⟩ := List.forall_mem_cons.mp each
      rw [inferAll] at run
      obtain ⟨typed, _, headRun, run⟩ := exists_of_bind_ok run
      obtain ⟨_, _, _, run⟩ := exists_of_bind_ok run
      obtain ⟨others, _, tailRun, run⟩ := exists_of_bind_ok run
      cases run
      have sameLength : args.length = rest.length := Nat.succ.inj length
      rw [Typed.Expr.eraseAll, Expr.bareAll, eachFirst headRun, ih eachRest sameLength tailRun]

/-- The typed form of an expression erases to the expression. -/
theorem infer_erase (expr : Circuit.Expr) : ∀ {checker next : Checker} {typed : Typed.Expr},
    env.infer expr checker = .ok typed next → typed.erase = expr.bare := by
  induction expr with
  | const span value =>
      intro checker next typed run
      rw [infer] at run
      cases run
      rfl
  | wire span id =>
      intro checker next typed run
      rw [infer] at run
      obtain ⟨_, _, _, run⟩ := exists_of_bind_ok run
      cases run
      rfl
  | apply span operator args ih =>
      intro checker next typed run
      rw [infer] at run
      obtain ⟨rule, _, _, run⟩ := exists_of_bind_ok run
      obtain ⟨_, _, arityRun, run⟩ := exists_of_bind_ok run
      obtain ⟨typedArgs, _, argsRun, run⟩ := exists_of_bind_ok run
      obtain ⟨_, _, _, run⟩ := exists_of_bind_ok run
      cases run
      rw [Typed.Expr.erase, Expr.bare,
        inferAll_erase ih (Rule.length_of_expectArity arityRun) argsRun]
  | call span node statics args ih =>
      intro checker next typed run
      rw [infer] at run
      obtain ⟨rule, _, _, run⟩ := exists_of_bind_ok run
      obtain ⟨_, _, arityRun, run⟩ := exists_of_bind_ok run
      obtain ⟨typedArgs, _, argsRun, run⟩ := exists_of_bind_ok run
      obtain ⟨_, _, _, run⟩ := exists_of_bind_ok run
      cases run
      rw [Typed.Expr.erase, Expr.bare,
        inferAll_erase ih (Rule.length_of_expectArity arityRun) argsRun]

private theorem checkEquation_erase (equation : Equation) {typed : Typed.Equation}
    (run : env.checkEquation equation checker = .ok typed next) :
    typed.erase = equation.bare := by
  obtain ⟨_, _, _, run⟩ := exists_of_bind_ok run
  obtain ⟨value, _, valueRun, run⟩ := exists_of_bind_ok run
  cases run
  obtain ⟨inferred, _, inferRun, valueRun⟩ := exists_of_bind_ok valueRun
  obtain ⟨_, _, _, valueRun⟩ := exists_of_bind_ok valueRun
  cases valueRun
  rw [Typed.Equation.erase, Equation.bare, infer_erase equation.value inferRun]

private theorem declare_erase (locals : List Local) : ∀ {env inner : Env} {checker next : Checker}
    {wires : List Typed.Wire}, env.declare locals checker = .ok (inner, wires) next →
      wires.map Typed.Wire.erase = locals.map Local.bare := by
  induction locals with
  | nil =>
      intro env inner checker next wires run
      cases run
      rfl
  | cons wire rest ih =>
      intro env inner checker next wires run
      rw [declare_cons] at run
      obtain ⟨_, _, _, run⟩ := exists_of_bind_ok run
      obtain ⟨_, _, _, run⟩ := exists_of_bind_ok run
      obtain ⟨⟨_, others⟩, _, restRun, run⟩ := exists_of_bind_ok run
      cases run
      rw [List.map_cons, List.map_cons, ih restRun]
      rfl

/-- The typed form of a body erases to the body. -/
theorem checkBlock_erase (block : Block) : ∀ {env : Env} {checker next : Checker}
    {typed : Typed.Block}, env.checkBlock block checker = .ok typed next →
      typed.erase = block.bare := by
  induction block with
  | system span locals equations =>
      intro env checker next typed run
      obtain ⟨⟨inner, wires⟩, _, declareRun, run⟩ := exists_of_bind_ok run
      obtain ⟨typedEquations, _, equationsRun, run⟩ := exists_of_bind_ok run
      cases run
      have each : ∀ equation ∈ equations, ∀ checker, True →
          Ends (inner.checkEquation equation) checker
            (fun typed _ => True ∧ typed.erase = equation.bare) fun _ _ => True :=
        fun equation _ _ _ => .of_returned fun _ _ run =>
          ⟨trivial, checkEquation_erase equation run⟩
      obtain ⟨_, related⟩ := (Ends.mapM each _ trivial).returned equationsRun
      have same := map_eq_map_of_forall₂ related fun _ _ erased => erased.symm
      rw [Typed.Block.erase, Block.bare, declare_erase locals declareRun, same]
  | choice span condition onTrue onFalse ihTrue ihFalse =>
      intro env checker next typed run
      obtain ⟨_, _, _, run⟩ := exists_of_bind_ok run
      obtain ⟨assumed, _, _, run⟩ := exists_of_bind_ok run
      obtain ⟨typedTrue, _, trueRun, run⟩ := exists_of_bind_ok run
      obtain ⟨typedFalse, _, falseRun, run⟩ := exists_of_bind_ok run
      cases run
      rw [Typed.Block.erase, Block.bare, ihTrue trueRun, ihFalse falseRun]

end Env

/-! ## Typed nodes -/

/-- The typed node is the node with types: it has the node's name, place and parameters, its ports
with their declared types, and a body that erases to the body of the node. -/
structure Circuit.Node.TypedAs (node : Node) (typed : Typed.Node) : Prop where
  span : typed.span = node.span
  id : typed.id = node.id
  params : typed.params = node.params
  inputs : typed.inputs = node.inputs.map Port.wire
  outputs : typed.outputs = node.outputs.map Port.wire
  body : typed.body.erase = node.body.bare

/-- An accepted node has the typed form that the check gives. -/
theorem Circuit.Node.typedAs_of_check {node : Node} {typed : Typed.Node} {checker next : Checker}
    (ready : checker.Ready) (accepted : node.check checker = .ok typed next) :
    node.TypedAs typed := by
  obtain ⟨phases⟩ := node.exists_phases ready accepted
  have shape := phases.concluded.shape
  obtain ⟨_, resolved⟩ := phases.concluded.resolved
  obtain ⟨wellFormed, _, accepts⟩ :=
    Ends.returned (phases.introduced.body_checks ready.catalog) phases.bodyRun
  obtain ⟨_, like⟩ :=
    (Typed.Block.resolve_like wellFormed accepts.owned (.refl _)).returned resolved
  have sameBody : typed.body.erase = node.body.bare :=
    like.erase_eq.symm.trans (Env.checkBlock_erase node.body phases.bodyRun)
  exact ⟨congrArg Typed.Node.span shape, congrArg Typed.Node.id shape,
    congrArg Typed.Node.params shape, congrArg Typed.Node.inputs shape,
    congrArg Typed.Node.outputs shape, sameBody⟩

end CircuitWidths
