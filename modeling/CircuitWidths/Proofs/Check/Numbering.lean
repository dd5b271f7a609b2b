import CircuitWidths.Proofs.Check.OwnWidths
import CircuitWidths.Proofs.Check.Regimes

/-!
# Numbers of generated widths

Generated widths are numbered from zero on, and the counter of the checker is above the numbers of
all that have been generated.  Where no name of a generated width is written in the source, the
signatures and the typed nodes of a session mention only generated widths with numbers below the
counter, whatever nodes were accepted or rejected before (`Checker.Session.numbers`).
-/

namespace CircuitWidths

open CheckM Circuit TypeStore

variable {stem : String} {count more : Nat}

namespace Static.Expr

/-- No generated width stands in the expression. -/
def Spares (stem : String) (expr : Static.Expr) : Prop :=
  ∀ index : Nat, expr.mentions (stem ++ index.repr) = false

/-- Generated widths that stand in the expression have numbers below the count. -/
def Below (stem : String) (count : Nat) (expr : Static.Expr) : Prop :=
  ∀ index : Nat, expr.mentions (stem ++ index.repr) = true → index < count

variable {expr left right : Static.Expr}

/-- An expression that spares the names of generated widths mentions none, whatever the count. -/
theorem Spares.below (spares : expr.Spares stem) (count : Nat) : expr.Below stem count := by
  intro index mentioned
  rw [spares index] at mentioned
  cases mentioned

/-- Names that are below a count are below every later one. -/
theorem Below.mono (le : count ≤ more) (below : expr.Below stem count) : expr.Below stem more :=
  fun index mentioned => (below index mentioned).trans_le le

private theorem Below.binary (op : Static.Op) (leftBelow : left.Below stem count)
    (rightBelow : right.Below stem count) : (binary op left right).Below stem count := by
  intro index mentioned
  rw [mentions, Bool.or_eq_true] at mentioned
  exact mentioned.elim (leftBelow index) (rightBelow index)

private theorem Below.simplify (below : expr.Below stem count) : expr.simplify.Below stem count :=
  fun index mentioned => below index (mentions_of_mentions_simplify mentioned)

private theorem below_generated : (var (stem ++ count.repr)).Below stem (count + 1) := by
  intro index mentioned
  have same : stem ++ count.repr = stem ++ index.repr := by simpa [mentions] using mentioned
  rw [generated_injective stem same]
  exact Nat.lt_succ_self index

private theorem Below.substitute {bindings : Bindings Static.Expr} (below : expr.Below stem count)
    (bound : ∀ name value, bindings.get? name = some value → value.Below stem count) :
    (expr.substitute bindings).Below stem count := by
  intro index mentioned
  rcases mentions_substitute mentioned with ⟨before, _⟩ | ⟨name, value, _, found, inside⟩
  · exact below index before
  · exact bound name value found index inside

end Static.Expr

/-- Widths and conditions mention generated widths with numbers below the count. -/
def numbered (stem : String) : Discipline where
  stem := stem
  first := 0
  width := Static.Expr.Below stem
  condition := Static.Expr.Below stem
  width_mono := fun le below => below.mono le
  condition_mono := fun le below => below.mono le
  generated := fun _ => Static.Expr.below_generated
  literal := by
    intro count value index mentioned
    cases mentioned
  arithmetic := fun _ leftBelow rightBelow => .binary _ leftBelow rightBelow
  simplify := fun below => below.simplify
  relation := fun _ leftBelow rightBelow => .binary _ leftBelow rightBelow

/-- Nothing that is written in the node, nor any of its parameters, is named as a generated
width. -/
structure Circuit.Node.Spares (stem : String) (node : Node) : Prop where
  statics : ∀ static ∈ node.statics, static.Spares stem
  params : ∀ index : Nat, stem ++ index.repr ∉ node.paramNames

private theorem ne_append_of_not_prefix {name : String}
    (apart : stem.toList.isPrefixOf name.toList = false) (rest : String) : name ≠ stem ++ rest := by
  rintro rfl
  rw [String.toList_append, List.isPrefixOf_iff_prefix.mpr (List.prefix_append _ _)] at apart
  cases apart

/-- A node over its own parameters names no generated width, if the names of its parameters do not
begin as those of generated widths do. -/
theorem Circuit.Node.OverParams.spares {node : Node} (overOwn : node.OverParams)
    (apart : ∀ param ∈ node.paramNames, stem.toList.isPrefixOf param.toList = false) :
    node.Spares stem where
  statics := by
    intro static inside index
    by_contra mentioned
    have isParam := overOwn static inside _ (Bool.eq_true_of_not_eq_false mentioned)
    exact ne_append_of_not_prefix (apart _ isParam) _ rfl
  params := fun index inside => ne_append_of_not_prefix (apart _ inside) _ rfl

/-- Generated widths in the signature have numbers below the count, and none is a parameter. -/
structure Signature.Below (stem : String) (count : Nat) (signature : Signature) : Prop where
  statics : ∀ static ∈ signature.statics, static.Below stem count
  params : ∀ index : Nat, stem ++ index.repr ∉ signature.params

/-- Generated widths in the known signatures have numbers below the count. -/
def Catalog.Below (stem : String) (count : Nat) (catalog : Catalog) : Prop :=
  ∀ name signature, catalog.get? name = some signature → signature.Below stem count

namespace Catalog.Below

variable {catalog : Catalog}

private theorem mono (le : count ≤ more) (below : catalog.Below stem count) :
    catalog.Below stem more := by
  intro name signature known
  obtain ⟨statics, params⟩ := below name signature known
  exact ⟨fun static inside => (statics static inside).mono le, params⟩

private theorem register {name : String} {signature : Signature} (below : catalog.Below stem count)
    (signatureBelow : signature.Below stem count) :
    (catalog.register name signature).Below stem count :=
  Catalog.Each.register below signatureBelow

/-- Calls bring in generated widths of the called signature and of the arguments only. -/
theorem covers (below : catalog.Below stem count) : (numbered stem).Covers count catalog := by
  intro more le name args signature instantiated argsBelow
  obtain ⟨registered, known, length, rfl⟩ := exists_of_instantiate instantiated
  have replaced : ∀ static ∈ registered.statics,
      (static.substitute (.ofList (registered.params.zip args))).Below stem more := by
    intro static inside
    apply (((below name registered known).statics static inside).mono le).substitute
    intro param arg bound
    exact argsBelow arg (List.of_mem_zip (Bindings.mem_of_get?_ofList bound)).2
  constructor
  · intro width inside
    obtain ⟨original, inPorts, rfl⟩ := Signature.mem_portWidths_substitute inside
    exact (replaced original (List.mem_append_left _ inPorts)).simplify
  · intro condition inside
    obtain ⟨original, member, rfl⟩ := List.mem_map.mp inside
    exact replaced original (List.mem_append_right _ member)

end Catalog.Below

/-- Generated widths have numbers below the count, those in known signatures included. -/
def numbering (stem : String) : Regime where
  toDiscipline := numbered stem
  known := Catalog.Below stem
  known_mono := fun le below => below.mono le
  covers := fun below => below.covers

/-- Solving takes the generated widths in residual conditions from the pending ones. -/
theorem Static.solve_below {params : List String} {pending solved : List Static.Expr}
    (run : Static.solve params pending = .ok solved)
    (below : ∀ condition ∈ pending, condition.Below stem count) :
    ∀ condition ∈ solved, condition.Below stem count := by
  intro condition inside index mentioned
  let reading : Static.Reading := ⟨fun _ => 0, fun _ _ => 0⟩
  have reduces : Static.Reduces reading params pending solved := Static.solve_reduces run
  obtain ⟨original, member, before⟩ := reduces.narrows _ ⟨condition, inside, mentioned⟩
  exact below original member index before

private theorem numbered_governs {block : Block}
    (spares : ∀ static ∈ block.statics, static.Spares stem) : (numbered stem).Governs block := by
  induction block with
  | system span locals equations =>
      obtain ⟨inLocals, inEquations⟩ := List.forall_mem_append.mp spares
      constructor
      · intro wire member width written count
        exact (inLocals width (List.mem_flatMap.mpr ⟨wire, member, written⟩)).below count
      · intro equation member static written _ count
        exact (inEquations static (List.mem_flatMap.mpr ⟨equation, member, written⟩)).below count
  | choice span condition onTrue onFalse ihTrue ihFalse =>
      obtain ⟨inCondition, inSides⟩ := List.forall_mem_cons.mp spares
      obtain ⟨inTrue, inFalse⟩ := List.forall_mem_append.mp inSides
      refine ⟨?_, ihTrue inTrue, ihFalse inFalse⟩
      intro _ name value equation count width below
      obtain rfl := Static.Expr.equation?_eq_some equation
      apply Static.Expr.Below.simplify
      apply Static.Expr.Below.substitute below
      intro other replacement bound index mentioned
      rw [Bindings.get?_insert] at bound
      by_cases same : other = name
      · rw [if_pos same] at bound
        cases bound
        have absent := inCondition index
        rw [Static.Expr.mentions, mentioned, Bool.or_true] at absent
        cases absent
      · rw [if_neg same] at bound
        cases bound

/-! ## Nodes -/

namespace Checker

/-- The counter is above the numbers of the generated widths in known signatures. -/
structure Numbers (stem : String) (checker : Checker) : Prop where
  named : checker.settings.widthStem = stem
  catalog : checker.catalog.Below stem checker.nextWidth

private theorem Numbers.conforms {checker : Checker} (numbers : checker.Numbers stem)
    (ready : checker.Ready) : checker.Conforms (numbered stem) checker.types := by
  refine ⟨numbers.named, Nat.zero_le _, .refl _, ?_⟩
  rw [ready.drained]
  intro condition inside
  cases inside

private theorem Numbers.keepsTo {checker : Checker} (numbers : checker.Numbers stem)
    (ready : checker.Ready) : checker.KeepsTo (numbering stem) checker.types :=
  ⟨numbers.conforms ready, ready.catalog, numbers.catalog⟩

end Checker

namespace Circuit.Node

variable {node : Node} {checker next : Checker} {typed : Typed.Node}

/-- The widths in the ports of a node that spares generated names are numbered properly. -/
theorem Spares.ports (spares : node.Spares stem) : ∀ port ∈ node.inputs ++ node.outputs,
    ∀ width ∈ port.declared.statics, ∀ count, (numbered stem).width count width := by
  intro port member width declared count
  exact (spares.statics width (List.mem_append_left _
    (List.mem_flatMap.mpr ⟨port, member, declared⟩))).below count

private theorem Spares.governs (spares : node.Spares stem) : (numbered stem).Governs node.body :=
  numbered_governs fun static inside => spares.statics static (List.mem_append_right _ inside)

/-- A signature with the ports of the node has no generated widths in them. -/
theorem Spares.describes_below (spares : node.Spares stem) {signature : Signature}
    (describes : signature.Describes node)
    (conditions : ∀ condition ∈ signature.constraints, condition.Below stem count) :
    signature.Below stem count where
  statics := by
    intro static inside
    rcases List.mem_append.mp inside with width | condition
    · obtain ⟨port, member, declared⟩ := describes.exists_port width
      exact spares.ports port member static declared count
    · exact conditions static condition
  params := by
    rw [describes]
    exact spares.params

/-- A node that spares generated names may be made known to its own body. -/
theorem Spares.callable_below (spares : node.Spares stem) {catalog : Catalog}
    (below : catalog.Below stem count) : (node.callable catalog).Below stem count := by
  have describes : node.provisional.Describes node := rfl
  apply below.register
  apply spares.describes_below describes
  intro condition inside
  cases inside

/-- A node that spares generated names keeps to the numbering. -/
theorem Spares.keepsTo (spares : node.Spares stem) : node.KeepsTo (numbering stem) where
  ports := spares.ports
  body := spares.governs
  callable := spares.callable_below
  final := by
    intro count catalog pending solved known conditions run
    have describes : ({ node.provisional with constraints := solved } : Signature).Describes node :=
      rfl
    exact Catalog.Below.register known
      (spares.describes_below describes (Static.solve_below run conditions))

private theorem body_stays {inputs outputs : List Typed.Wire} {inside : Checker}
    (ready : checker.Ready) (numbers : checker.Numbers stem) (spares : node.Spares stem)
    (run : node.introduce checker = .ok (inputs, outputs) inside) :
    Stays ((numbered stem).standard checker.types).toCourse
      ((portEnv inputs outputs).checkBlock node.body) inside
      fun typed next => typed.Conforms checker.types ((numbered stem).width next.nextWidth) := by
  obtain ⟨insideConforms, ports⟩ := introduce_conforms run spares.ports (numbers.conforms ready)
  obtain ⟨types, rfl, _⟩ := (node.introduce_ends ready.types).returned run
  exact Discipline.checkBlock_stays spares.governs (node.callable_closed ready.catalog)
    (spares.callable_below numbers.catalog).covers insideConforms (Standard.scope_portEnv ports)

/-- Generated widths in the typed node have numbers below the count. -/
structure TypedBelow (stem : String) (count : Nat) (typed : Typed.Node) : Prop where
  types : ∀ ty ∈ typed.tys, ∀ width ∈ ty.widths, width.Below stem count
  conditions : ∀ condition ∈ typed.signature.constraints, condition.Below stem count

/-- An accepted node has typed forms with numbers below the counter, and leaves it so. -/
structure AcceptedBelow (stem : String) (checker : Checker) (typed : Typed.Node) (next : Checker) :
    Prop where
  numbers : next.Numbers stem
  nextWidth : checker.nextWidth ≤ next.nextWidth
  typed : TypedBelow stem next.nextWidth typed

/-- All names in what was made of an accepted node are below the counter. -/
theorem Phases.below (phases : node.Phases checker typed next) (ready : checker.Ready)
    (numbers : checker.Numbers stem) (spares : node.Spares stem) :
    AcceptedBelow stem checker typed next := by
  obtain ⟨conforms, proceeds, _⟩ :=
    (body_stays ready numbers spares phases.introduceRun).returned phases.bodyRun
  have counter := phases.concluded.nextWidth
  have residuals : ∀ condition ∈ typed.signature.constraints,
      condition.Below stem next.nextWidth := by
    rw [counter]
    exact Static.solve_below phases.concluded.solved conforms.state.pending
  have catalogBelow : next.catalog.Below stem next.nextWidth := by
    rw [phases.concluded.catalog, phases.grows.catalog]
    have callable := (spares.callable_below numbers.catalog).mono (counter ▸ proceeds.nextWidth)
    exact callable.register (spares.describes_below phases.concluded.signature residuals)
  have bodyBelow : ∀ ty ∈ typed.body.tys, ∀ width ∈ ty.widths, width.Below stem next.nextWidth := by
    have bodyConforms := phases.body_conforms ready (numbers.conforms ready) spares.ports
      spares.governs (spares.callable_below numbers.catalog).covers
    exact fun ty member width inside => (bodyConforms ty member).widths width inside
  have settings : next.settings.widthStem = stem := by
    rw [phases.concluded.settings]
    exact conforms.stem
  refine ⟨⟨settings, catalogBelow⟩, counter ▸ proceeds.nextWidth, ?_, residuals⟩
  intro ty member width inside
  rcases List.mem_append.mp member with port | body
  · obtain ⟨declared, inNode, written⟩ := phases.exists_port port inside
    exact spares.ports declared inNode width written next.nextWidth
  · exact bodyBelow ty body width inside

/-- Whether the node is accepted or not, the counter stays above the numbers in known signatures. -/
theorem check_numbers (ready : checker.Ready) (numbers : checker.Numbers stem)
    (spares : node.Spares stem) : (finalState (node.check checker)).Numbers stem := by
  have ends := check_keepsTo spares.keepsTo checker ⟨numbers.keepsTo ready, ready.types⟩
  have kept : (finalState (node.check checker)).KeepsTo (numbering stem) checker.types :=
    ends.final (Checker.KeepsTo (numbering stem) checker.types) (fun _ _ returned => returned.1.1)
      fun _ _ failed => failed.1
  exact ⟨kept.conforms.stem, kept.known⟩

end Circuit.Node

/-! ## Sessions -/

namespace Checker

/-- The states that the checks of nodes make from the first one, where no node has names of generated
widths in it. -/
inductive Session (settings : CheckSettings) : Checker → Prop
  | start : Session settings (.start settings)
  | check {checker : Checker} (session : Session settings checker) {node : Node}
      (spares : node.Spares settings.widthStem) :
      Session settings (finalState (node.check checker))

variable {settings : CheckSettings} {checker : Checker}

/-- The state of a session is one that checking reaches. -/
theorem Session.reached (session : Session settings checker) : checker.Reached := by
  induction session with
  | start => exact .start settings
  | check _ _ ih => exact .check ih _

/-- At the start there are no names that could be out of order. -/
theorem start_numbers (settings : CheckSettings) :
    (start settings).Numbers settings.widthStem where
  named := rfl
  catalog := by
    intro name signature known
    cases known

/-- In a session all names are below the counter. -/
theorem Session.numbers (session : Session settings checker) :
    checker.Numbers settings.widthStem := by
  induction session with
  | start => exact start_numbers settings
  | check session spares ih => exact Node.check_numbers session.reached.ready ih spares

end Checker

end CircuitWidths
