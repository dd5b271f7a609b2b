import CircuitWidths.Proofs.Check.Resolved
import CircuitWidths.Proofs.Ty.Forms

/-!
# Types in typed circuits

The types of all wires and expressions in a typed circuit, and what resolving them keeps.
-/

namespace CircuitWidths

variable {origin : TypeStore}

namespace Typed

namespace Expr

mutual

/-- The types of an expression and of everything inside it. -/
def tys : Typed.Expr → List Ty
  | .const _ ty _ | .wire _ ty _ => [ty]
  | .apply _ ty _ args | .call _ ty _ _ args => ty :: tysAll args

/-- The types of the expressions and of everything inside them. -/
def tysAll : List Typed.Expr → List Ty
  | [] => []
  | expr :: rest => expr.tys ++ tysAll rest

end

/-- The types in a list of typed expressions are those in its members. -/
theorem mem_tysAll {ty : Ty} {exprs : List Typed.Expr} :
    ty ∈ tysAll exprs ↔ ∃ expr ∈ exprs, ty ∈ expr.tys := by
  induction exprs with
  | nil => simp [tysAll]
  | cons expr rest ih => simp [tysAll, ih]

/-- The type of an expression is one of the types in it. -/
theorem ty_mem_tys (expr : Typed.Expr) : expr.ty ∈ expr.tys := by
  cases expr <;> simp [ty, tys]

/-- Induction over typed expressions in which the arguments of operators and calls may be used. -/
@[elab_as_elim]
theorem inductionOnArgs {motive : Typed.Expr → Prop}
    (const : ∀ span ty value, motive (.const span ty value))
    (wire : ∀ span ty name, motive (.wire span ty name))
    (apply : ∀ span ty operator args, (∀ arg ∈ args, motive arg) →
      motive (.apply span ty operator args))
    (call : ∀ span ty node statics args, (∀ arg ∈ args, motive arg) →
      motive (.call span ty node statics args)) (expr : Typed.Expr) : motive expr := by
  have none : ∀ arg ∈ ([] : List Typed.Expr), motive arg := by
    intro arg member
    cases member
  have more : ∀ head tail, motive head → (∀ arg ∈ tail, motive arg) →
      ∀ arg ∈ head :: tail, motive arg :=
    fun _ _ headHolds tailHolds => List.forall_mem_cons.mpr ⟨headHolds, tailHolds⟩
  exact @Typed.Expr.rec motive (fun args => ∀ arg ∈ args, motive arg) const wire apply call
    none more expr

end Expr

/-- The types of all wires and expressions in a body. -/
def Block.tys : Typed.Block → List Ty
  | .system _ locals equations => locals.map (·.ty) ++ equations.flatMap (·.value.tys)
  | .choice _ _ onTrue onFalse => onTrue.tys ++ onFalse.tys

/-! ## What is true of all types -/

section

variable {allowed : Ty → Prop}

/-- The types in an operator or a call are its own and those in its arguments. -/
theorem Expr.forall_tys_node {ty : Ty} {args : List Typed.Expr} :
    (∀ other ∈ ty :: Expr.tysAll args, allowed other) ↔
      allowed ty ∧ ∀ arg ∈ args, ∀ other ∈ arg.tys, allowed other := by
  rw [List.forall_mem_cons]
  refine and_congr_right fun _ => ⟨fun all arg member other inside => ?_, fun each other inside => ?_⟩
  · exact all other (Expr.mem_tysAll.mpr ⟨arg, member, inside⟩)
  · obtain ⟨arg, member, inside⟩ := Expr.mem_tysAll.mp inside
    exact each arg member other inside

/-- The types in a system are those of its wires and those in its equations. -/
theorem Block.forall_tys_system {span : Source.Span} {wires : List Wire}
    {equations : List Typed.Equation} :
    (∀ ty ∈ (Typed.Block.system span wires equations).tys, allowed ty) ↔
      (∀ wire ∈ wires, allowed wire.ty) ∧
        ∀ equation ∈ equations, ∀ ty ∈ equation.value.tys, allowed ty := by
  simp only [Block.tys, List.mem_append, List.mem_map, List.mem_flatMap]
  constructor
  · intro all
    exact ⟨fun wire inside => all wire.ty (.inl ⟨wire, inside, rfl⟩),
      fun equation inside ty written => all ty (.inr ⟨equation, inside, written⟩)⟩
  · rintro ⟨ofWires, ofValues⟩ ty (⟨wire, inside, rfl⟩ | ⟨equation, inside, written⟩)
    · exact ofWires wire inside
    · exact ofValues equation inside ty written

/-- The types in a choice are those in its branches. -/
theorem Block.forall_tys_choice {span : Source.Span} {condition : Static.Expr}
    {onTrue onFalse : Typed.Block} :
    (∀ ty ∈ (Typed.Block.choice span condition onTrue onFalse).tys, allowed ty) ↔
      (∀ ty ∈ onTrue.tys, allowed ty) ∧ ∀ ty ∈ onFalse.tys, allowed ty :=
  List.forall_mem_append

end

/-! ## Resolving -/

section

variable {kept : TypeStore → Prop} {allowed : Ty → Prop}
  (keeps : ∀ ty, allowed ty → Preserves kept (TypeStore.resolve ty) allowed)

include keeps

/-- If resolving an allowed type gives an allowed one, then so does resolving an expression. -/
theorem Expr.resolve_keeps {expr : Typed.Expr} (each : ∀ ty ∈ expr.tys, allowed ty) :
    Preserves kept expr.resolve fun resolved => ∀ ty ∈ resolved.tys, allowed ty := by
  induction expr using Expr.inductionOnArgs with
  | const span ty value | wire span ty name =>
      refine .bind (keeps ty (each ty List.mem_cons_self)) fun resolved fine => ?_
      exact .pure (List.forall_mem_singleton.mpr fine)
  | apply span ty operator args ih | call span ty name statics args ih =>
      obtain ⟨own, ofArgs⟩ := Expr.forall_tys_node.mp each
      rw [Expr.resolve, Expr.resolveAll_eq_mapM]
      refine .bind (keeps ty own) fun resolved fine => ?_
      refine .bind (.mapM fun arg inside => ih arg inside (ofArgs arg inside)) fun _ argsFine => ?_
      exact .pure (Expr.forall_tys_node.mpr ⟨fine, argsFine⟩)

private theorem Equation.resolve_keeps {equation : Typed.Equation}
    (each : ∀ ty ∈ equation.value.tys, allowed ty) :
    Preserves kept equation.resolve fun resolved => ∀ ty ∈ resolved.value.tys, allowed ty :=
  .bind (Expr.resolve_keeps keeps each) fun _ fine => .pure fine

private theorem Wire.resolve_keeps {wire : Wire} (own : allowed wire.ty) :
    Preserves kept wire.resolve fun resolved => allowed resolved.ty :=
  .bind (keeps wire.ty own) fun _ fine => .pure fine

/-- If resolving an allowed type gives an allowed one, then so does resolving a body. -/
theorem Block.resolve_keeps {block : Typed.Block} (each : ∀ ty ∈ block.tys, allowed ty) :
    Preserves kept block.resolve fun resolved => ∀ ty ∈ resolved.tys, allowed ty := by
  induction block with
  | system span wires equations =>
      obtain ⟨ofWires, ofValues⟩ := Block.forall_tys_system.mp each
      refine .bind (.mapM fun wire inside => Wire.resolve_keeps keeps (ofWires wire inside))
        fun _ wiresFine => ?_
      refine .bind (.mapM fun equation inside =>
        Equation.resolve_keeps keeps (ofValues equation inside)) fun _ valuesFine => ?_
      exact .pure (Block.forall_tys_system.mpr ⟨wiresFine, valuesFine⟩)
  | choice span condition onTrue onFalse ihTrue ihFalse =>
      obtain ⟨first, second⟩ := Block.forall_tys_choice.mp each
      refine .bind (ihTrue first) fun _ trueFine => .bind (ihFalse second) fun _ falseFine => ?_
      exact .pure (Block.forall_tys_choice.mpr ⟨trueFine, falseFine⟩)

end

/-! ## Types with widths of a form -/

/-- All types of an expression have widths of the form. -/
def Expr.Conforms (origin : TypeStore) (form : Static.Expr → Prop) (expr : Typed.Expr) : Prop :=
  ∀ ty ∈ expr.tys, ty.Conforms origin form

/-- All types of a body have widths of the form. -/
def Block.Conforms (origin : TypeStore) (form : Static.Expr → Prop) (block : Typed.Block) : Prop :=
  ∀ ty ∈ block.tys, ty.Conforms origin form

section

variable {form : Static.Expr → Prop}

/-- The type of an expression conforms if all types in it do. -/
theorem Expr.Conforms.ty_conforms {expr : Typed.Expr} (conforms : expr.Conforms origin form) :
    expr.ty.Conforms origin form :=
  conforms expr.ty expr.ty_mem_tys

/-- A system conforms if its wires and its equations do. -/
theorem Block.system_conforms {span : Source.Span} {wires : List Wire}
    {equations : List Typed.Equation} :
    (Typed.Block.system span wires equations).Conforms origin form ↔
      (∀ wire ∈ wires, wire.ty.Conforms origin form) ∧
        ∀ equation ∈ equations, equation.value.Conforms origin form :=
  Block.forall_tys_system

/-- A choice conforms if both branches do. -/
theorem Block.choice_conforms {span : Source.Span} {condition : Static.Expr}
    {onTrue onFalse : Typed.Block} :
    (Typed.Block.choice span condition onTrue onFalse).Conforms origin form ↔
      onTrue.Conforms origin form ∧ onFalse.Conforms origin form :=
  Block.forall_tys_choice

/-- A typed expression still conforms when its links have been followed. -/
theorem Expr.Conforms.resolve {expr : Typed.Expr} (conforms : expr.Conforms origin form) :
    Preserves (TypeStore.Conforms origin form) expr.resolve
      (fun resolved => resolved.Conforms origin form) :=
  Expr.resolve_keeps (fun _ formed => TypeStore.resolve_preserves formed) conforms

/-- A typed equation still conforms when its links have been followed. -/
theorem Equation.resolve_preserves {equation : Typed.Equation}
    (conforms : equation.value.Conforms origin form) :
    Preserves (TypeStore.Conforms origin form) equation.resolve
      (fun resolved => resolved.value.Conforms origin form) :=
  Equation.resolve_keeps (fun _ formed => TypeStore.resolve_preserves formed) conforms

/-- A wire still conforms when its links have been followed. -/
theorem Wire.resolve_preserves {wire : Wire} (conforms : wire.ty.Conforms origin form) :
    Preserves (TypeStore.Conforms origin form) wire.resolve
      (fun resolved => resolved.ty.Conforms origin form) :=
  Wire.resolve_keeps (fun _ formed => TypeStore.resolve_preserves formed) conforms

/-- A typed body still conforms when its links have been followed. -/
theorem Block.Conforms.resolve {block : Typed.Block} (conforms : block.Conforms origin form) :
    Preserves (TypeStore.Conforms origin form) block.resolve
      (fun resolved => resolved.Conforms origin form) :=
  Block.resolve_keeps (fun _ formed => TypeStore.resolve_preserves formed) conforms

end

/-- The types of the ports of a node, and those in its signature. -/
def Node.portTys (node : Typed.Node) : List Ty :=
  (node.inputs ++ node.outputs).map (·.ty) ++ (node.signature.inputs ++ node.signature.outputs)

/-- All types of a node. -/
def Node.tys (node : Typed.Node) : List Ty := node.portTys ++ node.body.tys

end Typed

end CircuitWidths
