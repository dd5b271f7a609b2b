import CircuitWidths.Proofs.Check.Instances
import CircuitWidths.Proofs.Check.Moments
import CircuitWidths.Proofs.Check.OwnWidths
import CircuitWidths.Proofs.Check.ShapedBodies
import CircuitWidths.Proofs.Static.Kinds

/-!
# Integers and booleans

Widths are integers and conditions are booleans.  Where this is so in the declared types of the
source, it stays so while nodes are checked, in all types, scopes, signatures and conditions
(`checkProgram_wellKinded`).  What is written in operators, calls and guards is looked at by the
checks themselves (`checkProgram_kinds`), but declared widths are not.
-/

namespace CircuitWidths

open CheckM Circuit

/-! ## What is written where -/

namespace Circuit

/-- The widths that are declared for wires in a body. -/
def Block.declaredWidths : Block → List Static.Expr
  | .system _ locals _ => locals.flatMap (·.statics)
  | .choice _ _ onTrue onFalse => onTrue.declaredWidths ++ onFalse.declaredWidths

/-- The static expressions that are written in operators and calls. -/
def Block.operands : Block → List Static.Expr
  | .system _ _ equations => equations.flatMap (·.value.statics)
  | .choice _ _ onTrue onFalse => onTrue.operands ++ onFalse.operands

/-- The conditions of the choices in a body. -/
def Block.guards : Block → List Static.Expr
  | .system _ _ _ => []
  | .choice _ condition onTrue onFalse => condition :: (onTrue.guards ++ onFalse.guards)

/-- The widths that are declared for ports and wires. -/
def Node.declaredWidths (node : Node) : List Static.Expr :=
  (node.inputs ++ node.outputs).flatMap (·.declared.statics) ++ node.body.declaredWidths

end Circuit

/-! ## Well-kinded states -/

/-- The widths of a type are integers. -/
def Ty.WellKinded (ty : Ty) : Prop := ∀ width ∈ ty.widths, width.HasKind .int

/-- The widths of a signature are integers, and its conditions are booleans. -/
structure Signature.WellKinded (signature : Signature) : Prop where
  ports : ∀ ty ∈ signature.inputs ++ signature.outputs, ty.WellKinded
  conditions : Static.AllBoolean signature.constraints

/-- The widths of a typed node are integers, and its conditions are booleans. -/
structure Typed.Node.WellKinded (typed : Typed.Node) : Prop where
  types : ∀ ty ∈ typed.tys, ty.WellKinded
  conditions : Static.AllBoolean typed.signature.constraints

/-- Widths in links and known signatures are integers, and conditions are booleans. -/
structure Checker.WellKinded (checker : Checker) : Prop where
  pending : Static.AllBoolean checker.constraints.pending
  links : ∀ id ty, checker.types.Linked id ty → ty.WellKinded
  known : checker.catalog.Each Signature.WellKinded

/-- The types that a task works on, those in scope included. -/
def Task.tys : Task → List Ty
  | .represent _ ty | .resolve _ ty | .search _ _ ty | .bind _ ty => [ty]
  | .unify _ found expected | .unifyAt _ found expected => [found, expected]
  | .infer env _ | .checkEquation env _ | .declare env _ | .assume env _ | .checkBlock env _ =>
    env.entries.map (·.2)
  | .inferAll env _ expected => env.entries.map (·.2) ++ expected
  | .finishExpr expr => expr.tys
  | .finishBlock block => block.tys
  | .finishWires wires => wires.map (·.ty)
  | .conclude _ inputs outputs body => (inputs ++ outputs).map (·.ty) ++ body.tys
  | .generate | .ofOperator _ _ | .demand _ | .declarePort _ | .declarePorts _ | .solve _
  | .introduce _ | .checkDefinition _ | .checkNode _ | .checkNodes _ => []

/-- The types that a task works on keep to the regime. -/
theorem Task.KeepsTo.tys_conform {regime : Regime} {origin : TypeStore} {task : Task}
    {checker : Checker} (keeps : task.KeepsTo regime origin checker) :
    ∀ ty ∈ task.tys, ty.Conforms origin (regime.width checker.nextWidth) := by
  cases task with
  | represent limit ty | resolve limit ty | search id limit ty =>
      exact List.forall_mem_singleton.mpr keeps
  | bind id ty => exact List.forall_mem_singleton.mpr keeps.2
  | unify limit found expected | unifyAt span found expected =>
      exact List.forall_mem_cons.mpr ⟨keeps.1, List.forall_mem_singleton.mpr keeps.2⟩
  | infer env expr | checkEquation env equation | declare env locals | assume env condition
  | checkBlock env block => exact List.forall_mem_map.mpr keeps.1
  | inferAll env args expected =>
      exact List.forall_mem_append.mpr ⟨List.forall_mem_map.mpr keeps.1, keeps.2.2⟩
  | finishExpr expr | finishBlock block => exact keeps
  | finishWires wires => exact List.forall_mem_map.mpr keeps
  | conclude node inputs outputs body =>
      exact List.forall_mem_append.mpr ⟨List.forall_mem_map.mpr keeps.wires, keeps.body⟩
  | generate | ofOperator span operator | demand conditions | declarePort port
  | declarePorts ports | solve node | introduce node | checkDefinition node | checkNode node
  | checkNodes nodes =>
      intro ty inside
      cases inside

/-! ## The regime -/

private theorem Signature.WellKinded.substitute {signature : Signature}
    {bindings : Bindings Static.Expr} (wellKinded : signature.WellKinded)
    (bound : ∀ name value, bindings.get? name = some value → value.HasKind .int) :
    (signature.substitute bindings).WellKinded := by
  constructor
  · intro ty inside width written
    obtain ⟨original, inPorts, rfl⟩ :=
      Signature.mem_portWidths_substitute (Ty.mem_widthsAll.mpr ⟨ty, inside, written⟩)
    obtain ⟨port, member, declared⟩ := Ty.mem_widthsAll.mp inPorts
    exact ((wellKinded.ports port member original declared).substitute bound).simplify
  · intro condition inside
    obtain ⟨original, member, rfl⟩ := List.mem_map.mp inside
    exact (wellKinded.conditions original member).substitute bound

/-- Widths are integers and conditions are booleans. -/
def kinds (stem : String) : Regime where
  stem := stem
  first := 0
  width := fun _ expr => expr.HasKind .int
  condition := fun _ expr => expr.HasKind .bool
  width_mono := fun _ hasKind => hasKind
  condition_mono := fun _ hasKind => hasKind
  generated := fun _ => Static.Expr.hasKind_var _
  literal := fun _ value => Static.Expr.hasKind_int value
  arithmetic := by
    intro count op left right arithmetic leftKind rightKind
    apply Static.Expr.hasKind_binary.mpr
    exact ⟨leftKind, rightKind, by rw [Static.Op.result, arithmetic]; rfl⟩
  simplify := fun hasKind => hasKind.simplify
  relation := by
    intro count op left right relational leftKind rightKind
    apply Static.Expr.hasKind_binary.mpr
    exact ⟨leftKind, rightKind, by rw [Static.Op.result, relational]; rfl⟩
  known := fun _ catalog => catalog.Each Signature.WellKinded
  known_mono := fun _ each => each
  covers := by
    intro count catalog each more _ name args signature instantiated argsKind
    obtain ⟨registered, known, length, rfl⟩ := Catalog.exists_of_instantiate instantiated
    have bound : ∀ param arg, (Bindings.ofList (registered.params.zip args)).get? param = some arg →
        arg.HasKind .int := by
      intro param arg found
      exact argsKind arg (List.of_mem_zip (Bindings.mem_of_get?_ofList found)).2
    have replaced := (each name registered known).substitute bound
    refine ⟨fun width inside => ?_, replaced.conditions⟩
    obtain ⟨ty, member, written⟩ := Ty.mem_widthsAll.mp inside
    exact replaced.ports ty member width written

namespace Circuit

private theorem Block.governs_kinds {stem : String} (block : Block)
    (declared : ∀ width ∈ block.declaredWidths, width.HasKind .int) :
    (kinds stem).Governs block := by
  induction block with
  | system span locals equations =>
      constructor
      · intro wire inside width written _
        exact declared width (List.mem_flatMap.mpr ⟨wire, inside, written⟩)
      · intro equation _ static _ isInt _
        exact isInt
  | choice span condition onTrue onFalse onTrueIh onFalseIh =>
      obtain ⟨inTrue, inFalse⟩ := List.forall_mem_append.mp declared
      refine ⟨?_, onTrueIh inTrue, onFalseIh inFalse⟩
      intro isBool name value equation _ width isInt
      exact (isInt.replace (isBool.equation equation)).simplify

variable {node : Node} {stem : String}

private theorem Node.ports_wellKinded {signature : Signature} (describes : signature.Describes node)
    (declared : ∀ width ∈ node.declaredWidths, width.HasKind .int) :
    ∀ ty ∈ signature.inputs ++ signature.outputs, ty.WellKinded := by
  intro ty inside width written
  obtain ⟨port, inNode, declaredHere⟩ :=
    describes.exists_port (Ty.mem_widthsAll.mpr ⟨ty, inside, written⟩)
  exact declared width
    (List.mem_append_left _ (List.mem_flatMap.mpr ⟨port, inNode, declaredHere⟩))

private theorem Node.keepsTo_kinds (declared : ∀ width ∈ node.declaredWidths, width.HasKind .int) :
    node.KeepsTo (kinds stem) where
  ports := by
    intro port inside width written _
    exact declared width (List.mem_append_left _ (List.mem_flatMap.mpr ⟨port, inside, written⟩))
  body := node.body.governs_kinds fun width inside =>
    declared width (List.mem_append_right _ inside)
  callable := fun each =>
    each.register ⟨Node.ports_wellKinded rfl declared, fun _ inside => by cases inside⟩
  final := fun each pending solved =>
    each.register ⟨Node.ports_wellKinded rfl declared, Static.solve_allBoolean pending solved⟩

end Circuit

variable {stem : String} {checker next : Checker} {node : Node} {typed : Typed.Node}

private theorem Checker.KeepsTo.wellKinded (kept : checker.KeepsTo (kinds stem) (.empty 0)) :
    checker.WellKinded where
  pending := kept.conforms.state.pending
  links := fun id ty linked =>
    (kept.conforms.state.types.links id ty linked (Nat.zero_le _)).widths
  known := kept.known

private theorem Checker.start_keepsTo_kinds (settings : CheckSettings) :
    (start settings).KeepsTo (kinds settings.widthStem) (.empty 0) where
  conforms := ⟨rfl, Nat.zero_le _, .refl _, fun _ inside => by cases inside⟩
  closed := (start_ready settings).catalog
  known := fun _ _ found => by cases found

/-- An accepted node is well kinded if its declared widths and the state are. -/
theorem Circuit.Node.check_wellKinded (ready : checker.Ready)
    (kept : checker.KeepsTo (kinds stem) (.empty 0))
    (declared : ∀ width ∈ node.declaredWidths, width.HasKind .int)
    (checked : node.check checker = .ok typed next) : typed.WellKinded := by
  have keeps : node.KeepsTo (kinds stem) := Node.keepsTo_kinds declared
  obtain ⟨phases⟩ := node.exists_phases ready checked
  constructor
  · intro ty inside
    rcases List.mem_append.mp inside with inPorts | inBody
    · intro width written
      obtain ⟨port, member, declaredHere⟩ := phases.exists_port inPorts written
      exact keeps.ports port member width declaredHere 0
    · have callable : (kinds stem).Covers checker.nextWidth (node.callable checker.catalog) :=
        (kinds stem).covers (keeps.callable kept.known)
      exact (phases.body_conforms ready kept.conforms keeps.ports keeps.body callable ty
        inBody).widths
  · obtain ⟨⟨after, _⟩, _⟩ := (check_keepsTo keeps checker ⟨kept, ready.types⟩).returned checked
    have registered : next.catalog.get? node.id.name = some typed.signature := by
      rw [phases.concluded.catalog, Catalog.get?_register, if_pos rfl]
    exact (after.known node.id.name typed.signature registered).conditions

/-- **Kinds while a program is checked.**  If all declared widths are integers, then at every moment
all widths in links, in scopes and in known signatures are integers and all pending conditions are
booleans.  Types of accepted nodes have integer widths, and their conditions are booleans. -/
theorem Circuit.checkProgram_wellKinded (settings : CheckSettings) {nodes : List Node}
    (declared : ∀ node ∈ nodes, ∀ width ∈ node.declaredWidths, width.HasKind .int) :
    (∀ task checker, Task.During (.checkNodes nodes) (.start settings) task checker →
      (∀ ty ∈ task.tys, ty.WellKinded) ∧ checker.WellKinded ∧ (task.after checker).WellKinded) ∧
    (∀ node checker, Task.During (.checkNodes nodes) (.start settings) (.checkNode node) checker →
      ∀ typed next, node.check checker = .ok typed next → typed.WellKinded) ∧
    ∀ typeds final, checkProgram settings nodes = .ok typeds final →
      ∀ typed ∈ typeds, typed.WellKinded := by
  have keeps : (Task.checkNodes nodes).KeepsTo (kinds settings.widthStem) (.empty 0)
      (.start settings) :=
    ⟨fun node inside => Node.keepsTo_kinds (declared node inside),
      (Checker.start_ready settings).types⟩
  have atStart := Checker.start_keepsTo_kinds settings
  have accepted : ∀ node checker,
      Task.During (.checkNodes nodes) (.start settings) (.checkNode node) checker →
      ∀ typed next, node.check checker = .ok typed next → typed.WellKinded := by
    intro node checker during typed next checked
    obtain ⟨_, kept, _⟩ := during.keepsTo keeps atStart
    obtain ⟨inside, reached⟩ := during.turn.reached (.start settings)
    exact node.check_wellKinded reached.ready kept (declared node inside) checked
  refine ⟨?_, accepted, ?_⟩
  · intro task checker during
    obtain ⟨taskKeeps, kept, after⟩ := during.keepsTo keeps atStart
    exact ⟨fun ty inside => (taskKeeps.tys_conform ty inside).widths, kept.wellKinded,
      after.wellKinded⟩
  · intro typeds final run typed member
    obtain ⟨before, node, rest, earlier, checker, next, rfl, beforeRun, checked⟩ :=
      exists_of_mem_checkProgram run member
    have inTurn : Turn Node.check (fun _ => True) (before ++ node :: rest) (.start settings) node
        checker := .of_mapM before beforeRun
    exact accepted node checker (.inner .whole (.node (.nodeInTurn inTurn))) typed next checked

/-- A node that calls itself with one wire less, and a node that calls it. -/
theorem Circuit.checkProgram_wellKinded_chain :
    (∀ node ∈ [Instance.chain, Instance.longer], ∀ width ∈ node.declaredWidths,
      width.HasKind .int) ∧
    (∀ task checker,
      Task.During (.checkNodes [Instance.chain, Instance.longer]) (.start {}) task checker →
      (∀ ty ∈ task.tys, ty.WellKinded) ∧ checker.WellKinded ∧ (task.after checker).WellKinded) ∧
    ∃ typeds final, checkProgram {} [Instance.chain, Instance.longer] = .ok typeds final ∧
      typeds.map (·.id.name) = ["chain", "longer"] ∧ ∀ typed ∈ typeds, typed.WellKinded := by
  have declared : ∀ node ∈ [Instance.chain, Instance.longer], ∀ width ∈ node.declaredWidths,
      width.HasKind .int := by decide
  have computed : checkedAs (fun typeds _ => typeds.map (·.id.name)) {}
      [Instance.chain, Instance.longer] = some ["chain", "longer"] := by
    decide +kernel
  obtain ⟨typeds, final, accepted, names⟩ := exists_of_checkedAs computed
  obtain ⟨moments, _, typedNodes⟩ := checkProgram_wellKinded {} declared
  exact ⟨declared, moments, typeds, final, accepted, names, typedNodes typeds final accepted⟩

/-! ## What the checks look at -/

namespace Circuit

private theorem Expr.HasShape.operands_int {catalog : Catalog} {scope : Bindings GroundTy}
    {expr : Expr} : ∀ {shape : GroundTy}, expr.HasShape catalog scope shape →
      ∀ static ∈ expr.statics, static.HasKind .int := by
  have inArgs : ∀ {args : List Expr} {shapes : List GroundTy},
      (∀ arg ∈ args, ∀ {shape : GroundTy}, arg.HasShape catalog scope shape →
        ∀ static ∈ arg.statics, static.HasKind .int) →
      List.Forall₂ (HasShape catalog scope) args shapes →
      ∀ static ∈ Expr.staticsAll args, static.HasKind .int := by
    intro args shapes each shaped static inside
    obtain ⟨arg, member, written⟩ := Expr.mem_staticsAll.mp inside
    obtain ⟨shape, hasShape⟩ := forall₂_exists_right shaped member
    exact each arg member hasShape static written
  induction expr with
  | const span value => simp [Expr.statics]
  | wire span id => simp [Expr.statics]
  | apply span operator args ih =>
      intro shape hasShape
      rw [Expr.statics]
      cases hasShape with
      | apply kinds shaped => exact List.forall_mem_append.mpr ⟨kinds, inArgs ih shaped⟩
  | call span name statics args ih =>
      intro shape hasShape
      rw [Expr.statics]
      cases hasShape with
      | call kinds _ shaped => exact List.forall_mem_append.mpr ⟨kinds, inArgs ih shaped⟩

private theorem Block.WellShaped.kinds {catalog : Catalog} {scope : Bindings GroundTy}
    {block : Block} (shaped : block.WellShaped catalog scope) :
    (∀ static ∈ block.operands, static.HasKind .int) ∧
      ∀ condition ∈ block.guards, condition.HasKind .bool := by
  induction shaped with
  | system shapes _ each =>
      constructor
      · intro static inside
        obtain ⟨equation, member, written⟩ := List.mem_flatMap.mp inside
        obtain ⟨_, _, hasShape⟩ := each equation member
        exact hasShape.operands_int static written
      · intro condition inside
        cases inside
  | choice kind _ _ onTrueIh onFalseIh =>
      constructor
      · exact List.forall_mem_append.mpr ⟨onTrueIh.1, onFalseIh.1⟩
      · exact List.forall_mem_cons.mpr ⟨kind, List.forall_mem_append.mpr ⟨onTrueIh.2, onFalseIh.2⟩⟩

/-- **What the checks look at.**  In an accepted program the static expressions that are written in
operators and calls are integers, and the conditions of choices are booleans. -/
theorem checkProgram_kinds {settings : CheckSettings} {nodes : List Node}
    {typeds : List Typed.Node} {final : Checker}
    (accepted : checkProgram settings nodes = .ok typeds final) :
    ∀ node ∈ nodes, (∀ static ∈ node.body.operands, static.HasKind .int) ∧
      ∀ condition ∈ node.body.guards, condition.HasKind .bool := by
  intro node member
  obtain ⟨past, history, inPast, _⟩ := checkProgram_history accepted
  obtain ⟨typed, pair⟩ := (inPast node).mp member
  obtain ⟨_, before, next, earlier, checked, _⟩ := history.exists_of_mem pair
  have ready := earlier.reached.ready
  have shaped : node.WellShaped before.catalog :=
    (node.checkDefinition_shapes ready.types ready.catalog).returned
      (Node.checkDefinition_of_check checked)
  exact shaped.kinds

/-- What is looked at in a node that calls itself: two bounds of a slice, the argument of the call and
the condition of the choice. -/
theorem checkProgram_kinds_chain :
    ∃ typeds final, checkProgram {} [Instance.chain, Instance.longer] = .ok typeds final ∧
      Instance.chain.body.operands =
        [.int 2, .var "n", .binary .sub (.var "n") (.int 1)] ∧
      Instance.chain.body.guards = [.binary .eq (.var "n") (.int 0)] ∧
      ∀ node ∈ [Instance.chain, Instance.longer],
        (∀ static ∈ node.body.operands, static.HasKind .int) ∧
          ∀ condition ∈ node.body.guards, condition.HasKind .bool := by
  have computed : checkedAs (fun typeds _ => typeds.length) {}
      [Instance.chain, Instance.longer] = some 2 := by
    decide +kernel
  obtain ⟨typeds, final, accepted, _⟩ := exists_of_checkedAs computed
  exact ⟨typeds, final, accepted, rfl, rfl, checkProgram_kinds accepted⟩

/-- Passes a bus on over a wire whose width is a truth value. -/
def truthWide : Node :=
  let here : Source.Span := ⟨0, 0, 0⟩
  let wide : DeclaredTy := .bits (.bool true)
  { span := here
    id := ⟨"truth_wide", here⟩
    params := []
    inputs := [⟨⟨"x", here⟩, here, .bits (.int 4)⟩]
    outputs := [⟨⟨"o", here⟩, here, wide⟩]
    body := .system here [⟨⟨"t", here⟩, some wide⟩]
      [⟨here, .single ⟨"t", here⟩, .wire here ⟨"x", here⟩⟩,
        ⟨here, .single ⟨"o", here⟩, .wire here ⟨"t", here⟩⟩] }

/-- Declared widths are not looked at, so an accepted node may have a condition that is not
boolean. -/
theorem truthWide_accepted :
    ∃ typeds final, checkProgram {} [truthWide] = .ok typeds final ∧
      truthWide.declaredWidths = [.int 4, .bool true, .bool true] ∧
      ¬ (Static.Expr.bool true).HasKind .int ∧
      Typed.residuals typeds = [("truth_wide", [.binary .eq (.int 4) (.bool true)])] ∧
      ¬ (Static.Expr.binary .eq (.int 4) (.bool true)).HasKind .bool := by
  have computed : checkedAs (fun typeds _ => Typed.residuals typeds) {} [truthWide] =
      some [("truth_wide", [.binary .eq (.int 4) (.bool true)])] := by
    decide +kernel
  obtain ⟨typeds, final, accepted, residuals⟩ := exists_of_checkedAs computed
  exact ⟨typeds, final, accepted, rfl, by decide, residuals, by decide⟩

end Circuit

end CircuitWidths
