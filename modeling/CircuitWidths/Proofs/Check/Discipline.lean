import CircuitWidths.Proofs.Check.Programs
import CircuitWidths.Proofs.Check.Standards

/-!
# Disciplines of widths

A discipline says which form widths and conditions have, depending on how many widths have been
generated.  The forms have to be closed under what checking does with widths.  Then checking keeps to
them: if the source and the known signatures keep to the discipline, then so do all types and pending
conditions, whatever the outcome of a step is (`Discipline.kept`).
-/

namespace CircuitWidths

open CheckM Circuit

/-- Forms of widths and conditions, when so many widths have been generated, from the `first` on. -/
structure Discipline where
  stem : String
  first : Nat
  width : Nat → Static.Expr → Prop
  condition : Nat → Static.Expr → Prop
  width_mono : ∀ {count more expr}, count ≤ more → width count expr → width more expr
  condition_mono : ∀ {count more expr}, count ≤ more → condition count expr → condition more expr
  generated : ∀ {count}, first ≤ count → width (count + 1) (.var (stem ++ count.repr))
  literal : ∀ count value, width count (.int value)
  arithmetic : ∀ {count op left right}, op.isRelational = false → width count left →
    width count right → width count (.binary op left right)
  simplify : ∀ {count expr}, width count expr → width count expr.simplify
  relation : ∀ {count op left right}, op.isRelational = true → width count left →
    width count right → condition count (.binary op left right)

namespace Discipline

variable (discipline : Discipline)

/-- An integer that is written in an operator or a call is a width. -/
def Operand (static : Static.Expr) : Prop :=
  static.HasKind .int → ∀ count, discipline.width count static

/-- Widths stay widths where the condition is assumed. -/
def Guard (condition : Static.Expr) : Prop :=
  condition.HasKind .bool → ∀ name value, condition.equation? = some (name, value) →
    ∀ count width, discipline.width count width →
      discipline.width count (width.substitute (Bindings.empty.insert name value)).simplify

/-- What is written in the body keeps to the discipline. -/
def Governs (block : Block) : Prop :=
  block.Abides (fun width => ∀ count, discipline.width count width) discipline.Operand
    discipline.Guard

/-- The signatures keep to the discipline at arguments that are widths. -/
def Covers (count : Nat) (catalog : Catalog) : Prop :=
  ∀ more, count ≤ more → ∀ name args signature, catalog.instantiate name args = .ok signature →
    (∀ arg ∈ args, discipline.width more arg) →
      (∀ width ∈ Ty.widthsAll (signature.inputs ++ signature.outputs),
        discipline.width more width) ∧
      ∀ condition ∈ signature.constraints, discipline.condition more condition

variable {discipline}

/-- Widths that keep to the discipline may be equated. -/
theorem equates (count : Nat) :
    Unification.Equates (discipline.width count) (discipline.condition count) :=
  fun _ _ left right => discipline.relation rfl left right

end Discipline

namespace Checker

/-- The types made since `origin` and the pending conditions keep to the discipline. -/
structure Conforms (discipline : Discipline) (origin : TypeStore) (checker : Checker) : Prop where
  stem : checker.settings.widthStem = discipline.stem
  begun : discipline.first ≤ checker.nextWidth
  state : checker.toUnification.Conforms origin (discipline.width checker.nextWidth)
    (discipline.condition checker.nextWidth)

/-- Widths may have been generated, and the known signatures are the same. -/
structure Proceeds (checker next : Checker) : Prop where
  nextWidth : checker.nextWidth ≤ next.nextWidth
  catalog : next.catalog = checker.catalog

theorem Proceeds.refl (checker : Checker) : checker.Proceeds checker := ⟨le_rfl, rfl⟩

theorem Proceeds.trans {checker middle next : Checker} (first : checker.Proceeds middle)
    (second : middle.Proceeds next) : checker.Proceeds next :=
  ⟨first.nextWidth.trans second.nextWidth, second.catalog.trans first.catalog⟩

end Checker

variable {discipline : Discipline} {origin : TypeStore} {checker next : Checker}

/-- A type keeps to the discipline while more widths are generated. -/
theorem Ty.Conforms.later {ty : Ty} (proceeds : checker.Proceeds next)
    (conforms : ty.Conforms origin (discipline.width checker.nextWidth)) :
    ty.Conforms origin (discipline.width next.nextWidth) :=
  conforms.imp fun _ formed => discipline.width_mono proceeds.nextWidth formed

namespace Discipline

/-! ## The standard of a discipline -/

/-- Whether a step returns or stops, the types made since `origin` and the pending conditions keep to
the discipline, and the known signatures stay. -/
abbrev standard (discipline : Discipline) (origin : TypeStore) : Standard where
  holds := Checker.Conforms discipline origin
  follows := Checker.Proceeds
  fails := fun checker _ next => next.Conforms discipline origin ∧ checker.Proceeds next
  refl := .refl
  trans := .trans
  fails_later := fun proceeds failed => ⟨failed.1, proceeds.trans failed.2⟩
  ty := fun checker => Ty.Conforms origin (discipline.width checker.nextWidth)
  width := fun checker => discipline.width checker.nextWidth
  condition := fun checker => discipline.condition checker.nextWidth
  ty_later := .later
  width_later := fun proceeds => discipline.width_mono proceeds.nextWidth
  condition_later := fun proceeds => discipline.condition_mono proceeds.nextWidth

/-- A step on the type store that keeps to the widths of this moment keeps to the discipline. -/
theorem onTypes_stays {α : Type} {step : StoreM α} {returns : α → Prop}
    (preserves : Preserves (TypeStore.Conforms origin (discipline.width checker.nextWidth)) step
      returns) (conforms : checker.Conforms discipline origin) :
    Stays (discipline.standard origin).toCourse (onTypes step) checker
      fun value next => next.nextWidth = checker.nextWidth ∧ returns value := by
  have settled : ∀ {types : TypeStore},
      TypeStore.Conforms origin (discipline.width checker.nextWidth) types →
      Checker.Conforms discipline origin { checker with types := types } :=
    fun typesConform => ⟨conforms.stem, conforms.begun, typesConform, conforms.state.pending⟩
  refine onTypes_ends ((preserves checker.types conforms.state.types).imp ?_ ?_)
  · exact fun value types kept => ⟨settled kept.1, ⟨le_rfl, rfl⟩, rfl, kept.2⟩
  · exact fun fault types kept => ⟨settled kept, ⟨le_rfl, rfl⟩⟩

/-- A type that keeps to the discipline does so when its links are followed. -/
theorem resolve_stays {ty : Ty} (conforms : checker.Conforms discipline origin)
    (formed : ty.Conforms origin (discipline.width checker.nextWidth)) :
    Stays (discipline.standard origin).toCourse (onTypes (TypeStore.resolve ty)) checker
      fun resolved next => resolved.Conforms origin (discipline.width next.nextWidth) :=
  (onTypes_stays (TypeStore.resolve_preserves formed) conforms).imp
    fun _ _ _ proceeds found => found.2.later proceeds

/-- Types that keep to the discipline may be made equal. -/
theorem unifyAt_stays {span : Source.Span} {found expected : Ty}
    (conforms : checker.Conforms discipline origin)
    (foundFormed : found.Conforms origin (discipline.width checker.nextWidth))
    (expectedFormed : expected.Conforms origin (discipline.width checker.nextWidth)) :
    Stays (discipline.standard origin).toCourse (unifyAt span found expected) checker
      fun _ _ => True := by
  have ends := Unification.unify_preserves (discipline.equates checker.nextWidth)
    (discipline.literal checker.nextWidth 1) foundFormed expectedFormed checker.toUnification
    conforms.state
  refine CheckM.unifyAt_stays (fun _ conforms => ⟨conforms, .refl _⟩) ?_ ?_
  · refine tryUnify_ends (ends.imp ?_ ?_)
    · exact fun _ state kept => ⟨⟨conforms.stem, conforms.begun, kept.1⟩, ⟨le_rfl, rfl⟩, trivial⟩
    · exact fun _ state kept => ⟨⟨conforms.stem, conforms.begun, kept⟩, ⟨le_rfl, rfl⟩, trivial⟩
  · intro ty inside middle middleConforms proceeds
    have formed : ty.Conforms origin (discipline.width checker.nextWidth) := by
      rcases List.mem_pair.mp inside with rfl | rfl
      · exact foundFormed
      · exact expectedFormed
    exact (resolve_stays middleConforms (formed.later proceeds)).imp fun _ _ _ _ _ => trivial

/-- Checking keeps to a discipline. -/
theorem kept (discipline : Discipline) (origin : TypeStore) :
    (discipline.standard origin).Kept where
  bit := fun _ => .bit
  bits := .bits
  product := Ty.Conforms.product_iff.mpr
  literal := fun checker => discipline.literal checker.nextWidth
  sum := discipline.arithmetic rfl
  slice := fun first last => discipline.simplify (discipline.arithmetic rfl
    (discipline.arithmetic rfl last first) (discipline.literal _ 1))
  relation := discipline.relation
  rejects := fun conforms _ => ⟨conforms, .refl _⟩
  freshTy := by
    intro checker conforms
    obtain ⟨typesConform, tyConforms⟩ := conforms.state.types.fresh
    exact .of_ok rfl ⟨⟨conforms.stem, conforms.begun, typesConform, conforms.state.pending⟩,
      ⟨le_rfl, rfl⟩, tyConforms⟩
  resolve := resolve_stays
  unifyAt := unifyAt_stays
  emit := by
    intro checker condition conforms formed
    refine .of_ok rfl ⟨⟨conforms.stem, conforms.begun, conforms.state.types, fun expr inside => ?_⟩,
      ⟨le_rfl, rfl⟩, trivial⟩
    rcases List.mem_append.mp inside with before | added
    · exact conforms.state.pending expr before
    · exact List.mem_singleton.mp added ▸ formed

/-- Generated widths keep to the discipline. -/
theorem generates (discipline : Discipline) (origin : TypeStore) :
    (discipline.standard origin).Generates := by
  intro checker count conforms
  have le := Nat.le_add_right checker.nextWidth count
  refine .of_ok rfl ⟨⟨conforms.stem, conforms.begun.trans le, ?_, ?_⟩, ⟨le, rfl⟩,
    fun index inside => ?_⟩
  · exact conforms.state.types.imp fun _ formed => discipline.width_mono le formed
  · exact fun condition inside =>
      discipline.condition_mono le (conforms.state.pending condition inside)
  · have generated := discipline.generated (conforms.begun.trans (Nat.le_add_right _ index))
    rw [← conforms.stem] at generated
    exact discipline.width_mono (by simp only; omega) generated

/-- Widths that are written in declared types are widths of the standard. -/
theorem written {statics : List Static.Expr}
    (formed : ∀ width ∈ statics, ∀ count, discipline.width count width) :
    ∀ width ∈ statics, ∀ checker : Checker, discipline.width checker.nextWidth width :=
  fun width inside checker => formed width inside checker.nextWidth

/-- Integers that are written in operators and calls are widths of the standard. -/
theorem operands {statics : List Static.Expr}
    (written : ∀ static ∈ statics, discipline.Operand static) :
    ∀ static ∈ statics, (discipline.standard origin).Operand static :=
  fun static inside kind checker => written static inside kind checker.nextWidth

/-- If widths stay widths where a condition is assumed, then so do types. -/
theorem Guard.standard {condition : Static.Expr} (guard : discipline.Guard condition) :
    (discipline.standard origin).Guard condition := by
  intro kind name value equation checker ty formed
  refine ⟨by simpa using formed.vars, fun width inside => ?_⟩
  obtain ⟨original, written, rfl⟩ := Ty.mem_widths_substitute inside
  exact guard kind name value equation _ original (formed.widths original written)

private theorem Governs.standard {block : Block} (governs : discipline.Governs block) :
    (discipline.standard origin).Governs block :=
  Block.Abides.imp (fun _ formed checker => formed (Checker.nextWidth checker))
    (fun _ operand kind checker => operand kind (Checker.nextWidth checker))
    (fun _ guard => Guard.standard guard) governs

/-- Signatures without type variables that keep to the discipline are allowed. -/
theorem Covers.answers (covers : discipline.Covers checker.nextWidth checker.catalog)
    (closed : checker.catalog.Closed) : (discipline.standard origin).Answers checker := by
  intro middle _ proceeds name args signature instantiated written
  rw [proceeds.catalog] at instantiated
  obtain ⟨ports, conditions⟩ := covers middle.nextWidth proceeds.nextWidth _ _ _ instantiated written
  refine ⟨fun ty inside => ⟨fun id mentioned => ?_, fun width mentioned => ?_⟩, conditions⟩
  · rw [closed.instantiate instantiated ty inside] at mentioned
    cases mentioned
  · exact ports width (Ty.mem_widthsAll.mpr ⟨ty, inside, mentioned⟩)

/-- A body that keeps to a discipline is checked in keeping with it. -/
theorem checkBlock_stays {env : Env} {block : Block} (governs : discipline.Governs block)
    (closed : checker.catalog.Closed)
    (covers : discipline.Covers checker.nextWidth checker.catalog)
    (conforms : checker.Conforms discipline origin)
    (scope : (discipline.standard origin).Scope checker env) :
    Stays (discipline.standard origin).toCourse (env.checkBlock block) checker
      fun typed next => typed.Conforms origin (discipline.width next.nextWidth) :=
  Env.checkBlock_stays (discipline.kept origin) (discipline.generates origin) governs.standard
    conforms (covers.answers closed) scope

end Discipline

/-! ## Nodes -/

namespace Discipline

/-- The standard of a discipline around the bodies of nodes, where signatures are made known. -/
abbrev outerStandard (discipline : Discipline) (origin : TypeStore) : Standard :=
  { discipline.standard origin with
    follows := fun checker next => checker.nextWidth ≤ next.nextWidth
    fails := fun checker _ next =>
      next.Conforms discipline origin ∧ checker.nextWidth ≤ next.nextWidth
    refl := fun _ => le_rfl
    trans := le_trans
    fails_later := fun le failed => ⟨failed.1, le.trans failed.2⟩
    ty_later := fun le conforms => conforms.imp fun _ formed => discipline.width_mono le formed
    width_later := discipline.width_mono
    condition_later := discipline.condition_mono }

private theorem outer {α : Type} {step : CheckM α} {returns : α → Checker → Prop}
    (stays : Stays (discipline.standard origin).toCourse step checker returns) :
    Stays (discipline.outerStandard origin).toCourse step checker returns :=
  stays.weaken (fun _ conforms => conforms) (fun _ proceeds => proceeds.nextWidth)
    fun _ _ failed => ⟨failed.1, failed.2.nextWidth⟩

/-- The steps inside bodies also keep to the standard around them. -/
theorem kept_outer (discipline : Discipline) (origin : TypeStore) :
    (discipline.outerStandard origin).Kept :=
  have kept := discipline.kept origin
  { bit := kept.bit
    bits := kept.bits
    product := kept.product
    literal := kept.literal
    sum := kept.sum
    slice := kept.slice
    relation := kept.relation
    rejects := fun conforms _ => ⟨conforms, le_rfl⟩
    freshTy := fun conforms => outer (kept.freshTy conforms)
    resolve := fun conforms formed => outer (kept.resolve conforms formed)
    unifyAt := fun conforms found expected => outer (kept.unifyAt conforms found expected)
    emit := fun conforms formed => outer (kept.emit conforms formed) }

/-- Registering, draining and finishing a node keep to the discipline. -/
theorem settles_outer (discipline : Discipline) (origin : TypeStore) (node : Node) :
    (discipline.outerStandard origin).Settles node where
  register := fun _ conforms _ =>
    .of_ok rfl ⟨⟨conforms.stem, conforms.begun, conforms.state⟩, le_rfl, trivial⟩
  drain := fun conforms => .of_ok rfl ⟨⟨conforms.stem, conforms.begun, conforms.state.types,
    fun _ none => by cases none⟩, le_rfl, trivial⟩
  finish := fun conforms formed => outer ((onTypes_stays (Typed.Block.Conforms.resolve formed)
    conforms).imp fun _ _ _ _ _ => trivial)

end Discipline

namespace Circuit.Node

variable {node : Node} {typed : Typed.Node}

/-- Declaring the ports of a node keeps to the discipline. -/
theorem introduce_conforms {inputs outputs : List Typed.Wire}
    (run : node.introduce checker = .ok (inputs, outputs) next)
    (written : ∀ port ∈ node.inputs ++ node.outputs, ∀ width ∈ port.declared.statics, ∀ count,
      discipline.width count width)
    (conforms : checker.Conforms discipline origin) : next.Conforms discipline origin ∧
      ∀ wire ∈ inputs ++ outputs, wire.ty.Conforms origin (discipline.width next.nextWidth) := by
  obtain ⟨conforms, _, wires⟩ := (introduce_stays (discipline.kept_outer origin)
    (discipline.settles_outer origin node)
    (fun port inside => Discipline.written (written port inside)) conforms).returned run
  exact ⟨conforms, wires⟩

/-- The types in the body of an accepted node keep to the discipline. -/
theorem Phases.body_conforms (phases : node.Phases checker typed next) (ready : checker.Ready)
    (conforms : checker.Conforms discipline origin)
    (written : ∀ port ∈ node.inputs ++ node.outputs, ∀ width ∈ port.declared.statics,
      ∀ count, discipline.width count width)
    (governs : discipline.Governs node.body)
    (covers : discipline.Covers checker.nextWidth (node.callable checker.catalog)) :
    typed.body.Conforms origin (discipline.width next.nextWidth) := by
  obtain ⟨inside, ports⟩ := introduce_conforms phases.introduceRun written conforms
  obtain ⟨checkedConforms, _, bodyConforms⟩ := (Discipline.checkBlock_stays governs
    (node.callable_closed ready.catalog) covers inside
    (Standard.scope_portEnv ports)).returned phases.bodyRun
  obtain ⟨types, resolved⟩ := phases.concluded.resolved
  rw [phases.concluded.nextWidth]
  exact ((Typed.Block.Conforms.resolve bodyConforms _ checkedConforms.state.types).returned
    resolved).2

end Circuit.Node

end CircuitWidths
