import CircuitWidths.Proofs.Check.Programs
import Mathlib.Logic.Relation

/-!
# Instances of nodes

A node at integer arguments is elaborated by evaluating the conditions of its choices, which leaves
one system of equations, and by elaborating the nodes that this system calls at the values of their
static arguments.  An instance fits if the widths in its system match.

The conditions that a node puts on its parameters are inherited by the nodes that call it, but a
node that calls itself does not inherit its own.  So an instance of an accepted program fits if on
the way to it every node that calls itself does so at arguments that meet its conditions, and need
not fit otherwise.  The conditions that come from the chosen system are enough: those of a base case
are fewer than those of the whole node, and a recursion ends in it.
-/

namespace CircuitWidths

open Circuit
open Static (Reading Valuation AllHold)

variable {reading : Reading} {values : Valuation}

/-! ## Evaluating static expressions -/

/-- The value of an expression all of whose variables are known. -/
def Static.Expr.evaluate? (reading : Reading) (known : Bindings Int) : Static.Expr → Option Int
  | .int value => some value
  | .bool value => some (if value then 1 else 0)
  | .var name => known.get? name
  | .binary op left right => do
    let leftValue ← left.evaluate? reading known
    let rightValue ← right.evaluate? reading known
    pure (op.value reading leftValue rightValue)

/-- The valuation gives the known variables their values. -/
def Static.Valuation.Extends (values : Valuation) (known : Bindings Int) : Prop :=
  ∀ name value, known.get? name = some value → values name = value

private theorem Static.Expr.value_of_evaluate? {known : Bindings Int}
    (agrees : values.Extends known) {expr : Static.Expr} :
    ∀ {value : Int}, expr.evaluate? reading known = some value →
      expr.value reading values = value := by
  induction expr with
  | int number =>
      intro value evaluated
      exact Option.some.inj evaluated
  | bool truth =>
      intro value evaluated
      exact Option.some.inj evaluated
  | var name => exact fun evaluated => agrees name _ evaluated
  | binary op left right ihLeft ihRight =>
      intro value evaluated
      obtain ⟨leftValue, leftEvaluated, evaluated⟩ := Option.bind_eq_some_iff.mp evaluated
      obtain ⟨rightValue, rightEvaluated, evaluated⟩ := Option.bind_eq_some_iff.mp evaluated
      rw [Static.Expr.value, ihLeft leftEvaluated, ihRight rightEvaluated]
      exact Option.some.inj evaluated

namespace Circuit

/-- The system of equations that is left of a body when its conditions are evaluated. -/
def Block.chosen? (reading : Reading) (known : Bindings Int) :
    Block → Option (List Local × List Equation)
  | .system _ locals equations => some (locals, equations)
  | .choice _ condition onTrue onFalse =>
    match condition.evaluate? reading known with
    | some value =>
      if value ≠ 0 then onTrue.chosen? reading known else onFalse.chosen? reading known
    | none => none

/-- The node with this system as its whole body. -/
def Node.reduced (node : Node) (locals : List Local) (equations : List Equation) : Node :=
  { node with body := .system node.span locals equations }

end Circuit

/-! ## Instances -/

/-- A node at values of its parameters. -/
structure Instance where
  node : Node
  args : List Int

namespace Instance

/-- The values of the parameters. -/
def known (inst : Instance) : Bindings Int := .ofList (inst.node.paramNames.zip inst.args)

/-- The valuation that knows the parameters only. -/
def valuation (inst : Instance) : Valuation := fun name => (inst.known.get? name).getD 0

/-- The types of the inputs. -/
def inputTys (reading : Reading) (inst : Instance) : List GroundTy :=
  inst.node.inputs.map fun port => port.declared.toTy.ground reading inst.valuation

/-- The type of all outputs together. -/
def outputTy (reading : Reading) (inst : Instance) : GroundTy :=
  (Ty.ofOutputs (inst.node.outputs.map (·.declared.toTy))).ground reading inst.valuation

end Instance

/-- The expression has the ground type, where calls take and give what the called instances have
declared. -/
inductive Circuit.Expr.FitsIn (nodes : List Node) (reading : Reading) (values : Valuation)
    (scope : Bindings GroundTy) : Expr → GroundTy → Prop
  | const {span : Source.Span} {value : Literal} :
      FitsIn nodes reading values scope (.const span value) value.groundTy
  | wire {span : Source.Span} {id : Ident} {ty : GroundTy} (bound : scope.get? id.name = some ty) :
      FitsIn nodes reading values scope (.wire span id) ty
  | apply {span : Source.Span} {operator : Operator} {args : List Expr} {tys : List GroundTy}
      {ty : GroundTy} (fit : List.Forall₂ (FitsIn nodes reading values scope) args tys)
      (admits : operator.Admits reading values tys ty) :
      FitsIn nodes reading values scope (.apply span operator args) ty
  | call {span : Source.Span} {name : Ident} {statics : List Static.Expr} {args : List Expr}
      {callee : Instance} (member : callee.node ∈ nodes) (named : callee.node.id.name = name.name)
      (arity : statics.length = callee.node.paramNames.length)
      (evaluated : callee.args = statics.map fun static => static.value reading values)
      (fit : List.Forall₂ (FitsIn nodes reading values scope) args (callee.inputTys reading)) :
      FitsIn nodes reading values scope (.call span name statics args) (callee.outputTy reading)

namespace Instance

/-- The wires of the chosen system have types with which all operators, calls and equations
match. -/
def Fits (nodes : List Node) (reading : Reading) (inst : Instance) : Prop :=
  ∀ locals equations, inst.node.body.chosen? reading inst.known = some (locals, equations) →
    ∃ (values : Valuation) (tys : List GroundTy), values.Extends inst.known ∧
      List.Forall₂ (Local.Admits reading values) locals tys ∧
      ∀ equation ∈ equations, ∃ ty,
        equation.pattern.HasType (innerScope reading values inst.node.portScope
          (locals.map (·.id.name)) tys) ty ∧
        equation.value.FitsIn nodes reading values (innerScope reading values inst.node.portScope
          (locals.map (·.id.name)) tys) ty

/-- The arguments meet the conditions of the node, with some values for what else stands there. -/
def Meets (typeds : List Typed.Node) (reading : Reading) (inst : Instance) : Prop :=
  ∃ typed ∈ typeds, typed.id.name = inst.node.id.name ∧ ∃ values : Valuation,
    values.Extends inst.known ∧ AllHold reading values typed.signature.constraints

/-- The valuation that knows the parameters only gives them their values. -/
theorem valuation_extends (inst : Instance) : inst.valuation.Extends inst.known := by
  intro name value bound
  rw [valuation, bound]
  rfl

/-- What an instance is asked to meet can be looked up among the conditions of the typed nodes. -/
theorem meets_iff_of_residuals {typeds : List Typed.Node} {inst : Instance}
    {residuals : List (String × List Static.Expr)} (same : Typed.residuals typeds = residuals) :
    inst.Meets typeds reading ↔ ∃ constraints, (inst.node.id.name, constraints) ∈ residuals ∧
      ∃ values : Valuation, values.Extends inst.known ∧ AllHold reading values constraints := by
  rw [← same]
  constructor
  · rintro ⟨typed, inside, named, met⟩
    exact ⟨_, List.mem_map.mpr ⟨typed, inside, congrArg (·, _) named⟩, met⟩
  · rintro ⟨constraints, listed, met⟩
    obtain ⟨typed, inside, pair⟩ := List.mem_map.mp listed
    obtain ⟨named, rfl⟩ := Prod.mk.inj pair
    exact ⟨typed, inside, named, met⟩

private theorem Meets.of_residual {typeds : List Typed.Node} {inst : Instance}
    {residuals : List (String × List Static.Expr)} {constraints : List Static.Expr}
    (same : Typed.residuals typeds = residuals)
    (listed : (inst.node.id.name, constraints) ∈ residuals)
    (met : AllHold reading inst.valuation constraints) : inst.Meets typeds reading :=
  (meets_iff_of_residuals same).mpr ⟨constraints, listed, _, inst.valuation_extends, met⟩

/-- One instance calls another from its chosen system. -/
inductive Unfolds (nodes : List Node) (reading : Reading) (inst : Instance) : Instance → Prop
  | call {locals : List Local} {equations : List Equation} {equation : Equation} {call : Call}
      {callee : Node} {args : List Int}
      (chosen : inst.node.body.chosen? reading inst.known = some (locals, equations))
      (inside : equation ∈ equations) (called : call ∈ equation.value.calls)
      (member : callee ∈ nodes) (named : callee.id.name = call.node)
      (evaluated : call.statics.mapM (Static.Expr.evaluate? reading inst.known) = some args) :
      Unfolds nodes reading inst ⟨callee, args⟩

/-- The arguments meet the conditions that the node has where its chosen system is its whole body:
it is accepted so, after the nodes before it, and what is left of its conditions is met with some
values for what else stands there. -/
inductive MeetsChosen (settings : CheckSettings) (nodes : List Node) (reading : Reading)
    (inst : Instance) : Prop
  | intro {before after : List Node} {locals : List Local} {equations : List Equation}
      {earlier : List Typed.Node} {typed : Typed.Node} {state next : Checker} {values : Valuation}
      (place : nodes = before ++ inst.node :: after)
      (chosen : inst.node.body.chosen? reading inst.known = some (locals, equations))
      (earlierRun : checkProgram settings before = .ok earlier state)
      (accepted : (inst.node.reduced locals equations).check state = .ok typed next)
      (agrees : values.Extends inst.known)
      (met : AllHold reading values typed.signature.constraints) :
      MeetsChosen settings nodes reading inst

private theorem MeetsChosen.of_residual {settings : CheckSettings} {before after : List Node}
    {inst : Instance} {locals : List Local} {equations : List Equation}
    {front : List (String × List Static.Expr)} {constraints : List Static.Expr}
    (chosen : inst.node.body.chosen? reading inst.known = some (locals, equations))
    (computed : checkedAs (fun typeds _ => Typed.residuals typeds) settings
      (before ++ [inst.node.reduced locals equations]) =
        some (front ++ [(inst.node.id.name, constraints)]))
    (met : AllHold reading inst.valuation constraints) :
    inst.MeetsChosen settings (before ++ inst.node :: after) reading := by
  obtain ⟨typeds, final, accepted, residuals⟩ := exists_of_checkedAs computed
  rw [checkProgram, checkNodes_append] at accepted
  obtain ⟨earlier, state, earlierRun, accepted⟩ := exists_of_bind_ok accepted
  obtain ⟨last, next, lastRun, whole⟩ := exists_of_bind_ok accepted
  cases whole
  rw [checkNodes, List.mapM_cons] at lastRun
  obtain ⟨typed, middle, checked, lastRun⟩ := exists_of_bind_ok lastRun
  cases lastRun
  rw [Typed.residuals, List.map_append] at residuals
  obtain ⟨_, pair⟩ := List.append_inj' residuals rfl
  have same : typed.signature.constraints = constraints :=
    congrArg Prod.snd (List.singleton_inj.mp pair)
  exact .intro rfl chosen earlierRun checked inst.valuation_extends (same ▸ met)

/-- One instance calls another.  If it is one of the same node, the arguments meet the conditions of
the node, or at least those of its chosen system. -/
structure Enters (settings : CheckSettings) (nodes : List Node) (typeds : List Typed.Node)
    (reading : Reading) (inst target : Instance) : Prop where
  unfolds : inst.Unfolds nodes reading target
  selfCall : target.node.id.name = inst.node.id.name →
    target.Meets typeds reading ∨ target.MeetsChosen settings nodes reading

end Instance

/-! ## Signatures at arguments -/

private theorem Ty.ofOutputs_substitute (bindings : Bindings Static.Expr) (tys : List Ty) :
    Ty.ofOutputs (tys.map (Ty.substitute bindings)) = (Ty.ofOutputs tys).substitute bindings := by
  match tys with
  | [] => rfl
  | [ty] => rfl
  | first :: second :: rest =>
      exact congrArg Ty.product (Ty.substituteAll_eq_map bindings (first :: second :: rest)).symm

/-- Replacing parameters in a signature is the same as changing the valuation. -/
theorem Signature.admits_substitute {signature : Signature} {bindings : Bindings Static.Expr}
    {args : List GroundTy} {result : GroundTy} :
    (signature.substitute bindings).Admits reading values args result ↔
      signature.Admits reading (values.under reading bindings) args result := by
  have ground : ∀ ty : Ty, (ty.substitute bindings).ground reading values =
      ty.ground reading (values.under reading bindings) :=
    fun ty => Ty.denote_substitute bindings ⟨reading, values, fun _ => .unit⟩ ty
  have inputs : (signature.substitute bindings).inputs.map (Ty.ground reading values) =
      signature.inputs.map (Ty.ground reading (values.under reading bindings)) := by
    simp [Signature.substitute, Ty.substituteAll_eq_map, ground]
  have output : (Ty.ofOutputs (signature.substitute bindings).outputs).ground reading values =
      (Ty.ofOutputs signature.outputs).ground reading (values.under reading bindings) := by
    simp [Signature.substitute, Ty.substituteAll_eq_map, Ty.ofOutputs_substitute, ground]
  have conditions : AllHold reading values (signature.substitute bindings).constraints ↔
      AllHold reading (values.under reading bindings) signature.constraints := by
    simp [Signature.substitute, AllHold]
  constructor
  · rintro ⟨sameInputs, met, sameOutput⟩
    exact ⟨sameInputs.trans inputs, conditions.mp met, sameOutput.trans output⟩
  · rintro ⟨sameInputs, met, sameOutput⟩
    exact ⟨sameInputs.trans inputs.symm, conditions.mpr met, sameOutput.trans output.symm⟩

/-- The instance that a call stands for, and the valuation in which its signature is read. -/
theorem Instance.extends_under (callee : Node) (statics : List Static.Expr) :
    (values.under reading (.ofList (callee.paramNames.zip statics))).Extends
      (Instance.known ⟨callee, statics.map fun static => static.value reading values⟩) := by
  intro name value bound
  rw [known, ← Bindings.map_ofList_zip, Bindings.get?_map] at bound
  obtain ⟨static, found, rfl⟩ := Option.map_eq_some_iff.mp bound
  rw [Valuation.under, found]

private theorem Instance.valuation_eq_under {callee : Node} {statics : List Static.Expr}
    (arity : statics.length = callee.paramNames.length) {name : String}
    (param : name ∈ callee.paramNames) :
    Instance.valuation ⟨callee, statics.map fun static => static.value reading values⟩ name =
      values.under reading (.ofList (callee.paramNames.zip statics)) name := by
  have bound := Bindings.get?_ofList_zip_isSome
    ((List.length_map fun static => static.value reading values).trans arity) param
  obtain ⟨value, found⟩ := Option.isSome_iff_exists.mp bound
  rw [extends_under callee statics name value found, valuation, known, found]
  rfl

namespace Signature

variable {signature : Signature} {callee : Node} {statics : List Static.Expr}

/-- Values of the parameters determine the types of the ports. -/
theorem Describes.ground_congr {other : Valuation} (describes : signature.Describes callee)
    (overOwn : callee.PortsOverParams)
    (agree : ∀ name ∈ callee.paramNames, values name = other name) {ty : Ty} (written : ∀ width ∈ ty.widths,
      width ∈ Ty.widthsAll (signature.inputs ++ signature.outputs)) :
    ty.ground reading values = ty.ground reading other := by
  refine Ty.denote_congr (fun _ _ => rfl) fun width inside => ?_
  obtain ⟨port, member, declared⟩ := describes.exists_port (written width inside)
  exact Static.Expr.value_congr fun name mentioned =>
    agree name (overOwn port member width declared name mentioned)

/-- A call takes and gives what the called instance has declared. -/
theorem Describes.admits (describes : signature.Describes callee) (overOwn : callee.PortsOverParams)
    (arity : statics.length = callee.paramNames.length) {args : List GroundTy} {result : GroundTy}
    (admits : (signature.substitute (.ofList (callee.paramNames.zip statics))).Admits reading values
      args result) :
    args = Instance.inputTys reading ⟨callee, statics.map fun static =>
        static.value reading values⟩ ∧
      result = Instance.outputTy reading ⟨callee, statics.map fun static =>
        static.value reading values⟩ := by
  obtain ⟨inputs, _, output⟩ := Signature.admits_substitute.mp admits
  have agree : ∀ name ∈ callee.paramNames,
      values.under reading (.ofList (callee.paramNames.zip statics)) name =
        Instance.valuation ⟨callee, statics.map fun static => static.value reading values⟩ name :=
    fun name param => (Instance.valuation_eq_under arity param).symm
  have inputTys : signature.inputs = callee.inputs.map (·.declared.toTy) :=
    congrArg Signature.inputs describes
  have outputTys : signature.outputs = callee.outputs.map (·.declared.toTy) :=
    congrArg Signature.outputs describes
  refine ⟨inputs.trans ?_, output.trans ?_⟩
  · have each : ∀ ty ∈ signature.inputs, ty.ground reading _ = ty.ground reading _ :=
      fun ty member => describes.ground_congr overOwn agree fun width inside =>
        Ty.mem_widthsAll.mpr ⟨ty, List.mem_append_left _ member, inside⟩
    rw [List.map_congr_left each, inputTys, List.map_map]
    rfl
  · rw [describes.ground_congr overOwn agree fun width inside => ?_, outputTys]
    · rfl
    · obtain ⟨ty, member, inside⟩ := Ty.mem_widthsAll.mp (Ty.widths_ofOutputs inside)
      exact Ty.mem_widthsAll.mpr ⟨ty, List.mem_append_right _ member, inside⟩

end Signature

/-! ## Well typed bodies fit -/

variable {nodes : List Node} {catalog : Catalog}

private theorem Circuit.Expr.HasType.fitsIn (described : catalog.DescribedBy nodes)
    (overOwn : ∀ node ∈ nodes, node.PortsOverParams) {scope : Bindings GroundTy} {expr : Expr} :
    ∀ ty, expr.HasType reading values catalog scope ty →
      expr.FitsIn nodes reading values scope ty := by
  induction expr with
  | const span value =>
      intro ty typed
      cases typed with
      | const => exact .const
  | wire span id =>
      intro ty typed
      cases typed with
      | wire bound => exact .wire bound
  | apply span operator args ih =>
      intro ty typed
      cases typed with
      | apply typedArgs admits => exact .apply (forall₂_imp_of_mem typedArgs ih) admits
  | call span name statics args ih =>
      intro ty typed
      cases typed with
      | call kinds instantiated typedArgs admits =>
          obtain ⟨signature, known, length, rfl⟩ := Catalog.exists_of_instantiate instantiated
          obtain ⟨callee, member, named, describes⟩ := described _ signature known
          have params : signature.params = callee.paramNames := congrArg Signature.params describes
          rw [params] at length admits
          obtain ⟨rfl, rfl⟩ := describes.admits (overOwn callee member) length admits
          exact .call member named length rfl (forall₂_imp_of_mem typedArgs ih)

/-- What the calls of a well typed expression demand is met. -/
theorem Circuit.Expr.HasType.demands_hold {scope : Bindings GroundTy} {expr : Expr} :
    ∀ ty, expr.HasType reading values catalog scope ty →
      ∀ call ∈ expr.calls, ∃ signature, catalog.instantiate call.node call.statics = .ok signature ∧
        AllHold reading values signature.constraints := by
  induction expr with
  | const span value => simp [Expr.calls]
  | wire span id => simp [Expr.calls]
  | apply span operator args ih =>
      intro ty typed call inside
      cases typed with
      | apply typedArgs _ =>
          obtain ⟨arg, member, called⟩ := Expr.mem_callsAll.mp inside
          obtain ⟨argTy, typedArg⟩ := forall₂_exists_right typedArgs member
          exact ih arg member argTy typedArg call called
  | call span name statics args ih =>
      intro ty typed call inside
      cases typed with
      | call kinds instantiated typedArgs admits =>
          rcases List.mem_cons.mp inside with rfl | inArgs
          · exact ⟨_, instantiated, admits.conditions⟩
          · obtain ⟨arg, member, called⟩ := Expr.mem_callsAll.mp inArgs
            obtain ⟨argTy, typedArg⟩ := forall₂_exists_right typedArgs member
            exact ih arg member argTy typedArg call called

private theorem Static.Valuation.under_eq_self {name : String} {value : Static.Expr}
    (same : values name = value.value reading values) :
    values.under reading (Bindings.empty.insert name value) = values := by
  funext other
  rw [Valuation.under, Bindings.get?_insert]
  by_cases equal : other = name
  · rw [if_pos equal, equal, same]
  · rw [if_neg equal]
    rfl

/-- Where a condition holds, refining by it changes no ground type. -/
theorem Circuit.refine_map_ground {condition : Static.Expr} (holds : condition.Holds reading values)
    (scope : Bindings Ty) : (Circuit.refine scope condition).map (Ty.ground reading values) =
      scope.map (Ty.ground reading values) := by
  unfold Circuit.refine
  cases equation : condition.equation? with
  | none => rfl
  | some solution =>
      obtain ⟨name, value⟩ := solution
      obtain rfl := Static.Expr.equation?_eq_some equation
      have same := Static.Valuation.under_eq_self (Static.holds_eq.mp holds)
      simp only [Bindings.map, List.map_map]
      congr 1
      refine List.map_congr_left fun entry _ => Prod.ext rfl ?_
      have substituted := Ty.denote_substitute (Bindings.empty.insert name value)
        ⟨reading, values, fun _ => .unit⟩ entry.2
      exact substituted.trans (by rw [same]; rfl)

/-- The chosen system of a well typed body is well typed, in the scope around the body. -/
theorem Circuit.Block.WellTyped.chosen {known : Bindings Int} {scope : Bindings Ty} {block : Block}
    {locals : List Local} {equations : List Equation}
    (typed : block.WellTyped reading values catalog scope) (agrees : values.Extends known)
    (chosen : block.chosen? reading known = some (locals, equations)) :
    ∃ tys, List.Forall₂ (Local.Admits reading values) locals tys ∧
      ∀ equation ∈ equations, equation.WellTyped reading values catalog
        (innerScope reading values scope (locals.map (·.id.name)) tys) := by
  induction typed with
  | system tys annotated typed =>
      cases chosen
      exact ⟨tys, annotated, typed⟩
  | @choice scope span condition onTrue onFalse _ _ _ ihTrue ihFalse =>
      rw [Block.chosen?] at chosen
      cases evaluated : condition.evaluate? reading known with
      | none =>
          rw [evaluated] at chosen
          cases chosen
      | some value =>
          rw [evaluated] at chosen
          by_cases holds : value ≠ 0
          · have met : condition.Holds reading values := by
              rw [Static.Expr.Holds, Static.Expr.value_of_evaluate? agrees evaluated]
              exact holds
            obtain ⟨tys, annotated, typed⟩ := ihTrue (by simpa [holds] using chosen)
            refine ⟨tys, annotated, fun equation inside => ?_⟩
            have sides := typed equation inside
            rwa [innerScope, refine_map_ground met] at sides
          · exact ihFalse (by simpa [holds] using chosen)

/-! ## Elaboration of accepted programs -/

/-- Every known signature is that of a typed node, for one of the nodes. -/
def Catalog.TakenFrom (nodes : List Node) (typeds : List Typed.Node) (catalog : Catalog) : Prop :=
  ∀ name signature, catalog.get? name = some signature →
    ∃ node ∈ nodes, node.id.name = name ∧ signature.Describes node ∧
      ∃ typed ∈ typeds, typed.id.name = name ∧ typed.signature = signature

namespace Circuit

variable {settings : CheckSettings} {before after : List Node} {typeds earlier : List Typed.Node}
  {state final : Checker}

/-- What is known after nodes were accepted, in a program that goes on with other nodes. -/
theorem checkProgram_takenFrom (earlierRun : checkProgram settings before = .ok earlier state)
    (accepted : checkProgram settings (before ++ after) = .ok typeds final) :
    state.catalog.TakenFrom (before ++ after) typeds := by
  obtain ⟨past, history, inNodes, inTypeds⟩ := checkProgram_history earlierRun
  have kept : ∀ typed ∈ earlier, typed ∈ typeds := by
    rw [checkProgram, checkNodes_append, bind_of_ok earlierRun] at accepted
    obtain ⟨rest, last, restRun, whole⟩ := exists_of_bind_ok accepted
    cases whole
    exact fun typed inside => List.mem_append_left _ inside
  intro name signature known
  obtain ⟨⟨callee, calleeTyped⟩, inside, rfl, rfl⟩ := history.exists_of_known known
  obtain ⟨sameId, describes⟩ := history.typed_eq inside
  refine ⟨callee, List.mem_append_left _ ((inNodes callee).mpr ⟨calleeTyped, inside⟩), rfl, describes,
    calleeTyped, kept _ ((inTypeds calleeTyped).mpr ⟨callee, inside⟩), ?_, rfl⟩
  rw [sameId]

end Circuit

namespace Instance

variable {settings : CheckSettings} {typeds : List Typed.Node} {final : Checker}
  {inst target : Instance}

/-- The chosen system of the node is well typed at the arguments, over signatures of the program. -/
structure WellTyped (nodes : List Node) (typeds : List Typed.Node) (reading : Reading)
    (inst : Instance) (values : Valuation) (catalog : Catalog) : Prop where
  member : inst.node ∈ nodes
  agrees : values.Extends inst.known
  system : ∀ locals equations, inst.node.body.chosen? reading inst.known = some (locals, equations) →
    ∃ tys, List.Forall₂ (Local.Admits reading values) locals tys ∧
      ∀ equation ∈ equations, equation.WellTyped reading values (inst.node.callable catalog)
        (innerScope reading values inst.node.portScope (locals.map (·.id.name)) tys)
  catalog : catalog.TakenFrom nodes typeds

/-- Values of the parameters stay what they are where eliminated variables are given other values. -/
private theorem extends_of_kept {changed : Valuation} (agrees : values.Extends inst.known)
    (kept : ∀ name, name ∈ inst.node.paramNames → changed name = values name) :
    changed.Extends inst.known := by
  intro name value bound
  have param := (List.of_mem_zip (Bindings.mem_of_get?_ofList bound)).1
  rw [kept name param, agrees name value bound]

/-- Where its conditions are met, an accepted node is well typed. -/
theorem Meets.wellTyped (accepted : checkProgram settings nodes = .ok typeds final)
    (distinct : (nodes.map (·.id.name)).Nodup) (member : inst.node ∈ nodes)
    (meets : inst.Meets typeds reading) :
    ∃ values catalog, inst.WellTyped nodes typeds reading values catalog := by
  obtain ⟨typed, listed, named, values, agrees, met⟩ := meets
  obtain ⟨before, node, after, earlier, state, last, rfl, earlierRun, checked⟩ :=
    exists_of_mem_checkProgram accepted listed
  obtain ⟨past, history, _⟩ := checkProgram_history earlierRun
  have conclusion := (node.check_ends history.reached.ready).returned checked
  obtain rfl : node = inst.node := by
    refine List.inj_on_of_nodup_map distinct (List.mem_append_right _ List.mem_cons_self) member ?_
    rw [← named, ((history.accept checked).typed_eq List.mem_cons_self).1]
  obtain ⟨changed, _, kept, elaborates⟩ := conclusion.restores met
  have extended := extends_of_kept agrees fun name param => kept name (.inl param)
  refine ⟨changed, state.catalog, member, extended, ?_, checkProgram_takenFrom earlierRun accepted⟩
  exact fun locals equations chosen => elaborates.wellTyped.chosen extended chosen

/-- Where the conditions of its chosen system are met, a node is well typed as far as that system
goes. -/
theorem MeetsChosen.wellTyped (accepted : checkProgram settings nodes = .ok typeds final)
    (meets : inst.MeetsChosen settings nodes reading) :
    ∃ values catalog, inst.WellTyped nodes typeds reading values catalog := by
  obtain @⟨before, after, locals, equations, earlier, typed, state, next, values, rfl, chosen,
    earlierRun, checked, agrees, met⟩ := meets
  obtain ⟨past, history, _⟩ := checkProgram_history earlierRun
  obtain ⟨changed, _, kept, elaborates⟩ :=
    ((Node.check_ends _ history.reached.ready).returned checked).restores met
  have extended := extends_of_kept agrees fun name param => kept name (.inl param)
  refine ⟨changed, state.catalog, List.mem_append_right _ List.mem_cons_self, extended, ?_,
    checkProgram_takenFrom earlierRun accepted⟩
  intro otherLocals otherEquations chosenAgain
  cases chosen.symm.trans chosenAgain
  cases elaborates.wellTyped with
  | system tys annotated typed => exact ⟨tys, annotated, typed⟩

namespace WellTyped

variable {catalog : Catalog}

private theorem describedBy (typed : inst.WellTyped nodes typeds reading values catalog) :
    (inst.node.callable catalog).DescribedBy nodes := by
  refine Catalog.DescribedBy.callable (fun name signature known => ?_) typed.member
  obtain ⟨node, member, named, describes, _⟩ := typed.catalog name signature known
  exact ⟨node, member, named, describes⟩

private theorem fits (typed : inst.WellTyped nodes typeds reading values catalog)
    (overOwn : ∀ node ∈ nodes, node.PortsOverParams) : inst.Fits nodes reading := by
  intro locals equations chosen
  obtain ⟨tys, annotated, equationsTyped⟩ := typed.system locals equations chosen
  refine ⟨values, tys, typed.agrees, annotated, fun equation inside => ?_⟩
  obtain ⟨ty, left, right⟩ := equationsTyped equation inside
  exact ⟨ty, left, right.fitsIn typed.describedBy overOwn ty⟩

private theorem args_eq {statics : List Static.Expr} {args : List Int}
    (typed : inst.WellTyped nodes typeds reading values catalog)
    (evaluated : statics.mapM (Static.Expr.evaluate? reading inst.known) = some args) :
    args = statics.map fun static => static.value reading values := by
  induction statics generalizing args with
  | nil =>
      cases evaluated
      rfl
  | cons static statics ih =>
      rw [List.mapM_cons] at evaluated
      obtain ⟨value, head, evaluated⟩ := Option.bind_eq_some_iff.mp evaluated
      obtain ⟨others, tail, evaluated⟩ := Option.bind_eq_some_iff.mp evaluated
      cases evaluated
      rw [ih tail, List.map_cons, Static.Expr.value_of_evaluate? typed.agrees head]

/-- The conditions of a called node are met, since the caller has inherited them. -/
theorem meets (typed : inst.WellTyped nodes typeds reading values catalog)
    (distinct : (nodes.map (·.id.name)).Nodup) (unfolds : inst.Unfolds nodes reading target)
    (other : target.node.id.name ≠ inst.node.id.name) : target.Meets typeds reading := by
  obtain @⟨locals, equations, equation, call, callee, args, chosen, inside, called, member, named,
    evaluated⟩ := unfolds
  obtain ⟨tys, _, equationsTyped⟩ := typed.system locals equations chosen
  obtain ⟨ty, _, right⟩ := equationsTyped equation inside
  obtain ⟨_, instantiated, met⟩ := right.demands_hold ty call called
  obtain ⟨signature, known, length, rfl⟩ := Catalog.exists_of_instantiate instantiated
  rw [Node.callable, Catalog.get?_register, if_neg (named ▸ other)] at known
  obtain ⟨node, inNodes, sameName, describes, calleeTyped, listed, typedName, rfl⟩ :=
    typed.catalog call.node signature known
  obtain rfl := List.inj_on_of_nodup_map distinct inNodes member (sameName.trans named.symm)
  have params : calleeTyped.signature.params = node.paramNames :=
    congrArg Signature.params describes
  rw [typed.args_eq evaluated]
  refine ⟨calleeTyped, listed, typedName.trans named.symm, _,
    extends_under node call.statics, ?_⟩
  rw [← params]
  intro condition asked
  have holds := met _ (List.mem_map_of_mem asked)
  exact (Static.Expr.holds_substitute _ condition).mp holds

end WellTyped

/-- What is entered from a well typed instance is well typed: another node because the caller has
inherited its conditions, and the same node because they are met on entering. -/
theorem Enters.wellTyped (accepted : checkProgram settings nodes = .ok typeds final)
    (distinct : (nodes.map (·.id.name)).Nodup)
    (typed : ∃ values catalog, inst.WellTyped nodes typeds reading values catalog)
    (enters : inst.Enters settings nodes typeds reading target) :
    ∃ values catalog, target.WellTyped nodes typeds reading values catalog := by
  obtain ⟨values, catalog, typed⟩ := typed
  have member : target.node ∈ nodes := by
    cases enters.unfolds with
    | call _ _ _ called _ _ => exact called
  by_cases same : target.node.id.name = inst.node.id.name
  · rcases enters.selfCall same with meets | meets
    · exact meets.wellTyped accepted distinct member
    · exact meets.wellTyped accepted
  · exact (typed.meets distinct enters.unfolds same).wellTyped accepted distinct member

/-- **Elaboration of accepted programs.**  Take an instance of a node of an accepted program whose
arguments meet the conditions of the node.  All instances that are reached from it fit, as long as
every node that calls itself on the way does so at arguments that meet its conditions, or at least
those that it has with the chosen system as its body; for calls of other nodes this is so by
itself. -/
theorem fits_of_enters {settings : CheckSettings} {nodes : List Node} {typeds : List Typed.Node}
    {final : Checker} (accepted : checkProgram settings nodes = .ok typeds final)
    (distinct : (nodes.map (·.id.name)).Nodup) (overOwn : ∀ node ∈ nodes, node.PortsOverParams)
    (reading : Reading) {root reached : Instance} (member : root.node ∈ nodes)
    (meets : root.Meets typeds reading)
    (path : Relation.ReflTransGen (Enters settings nodes typeds reading) root reached) :
    reached.Fits nodes reading := by
  have invariant : ∃ values catalog, reached.WellTyped nodes typeds reading values catalog := by
    induction path with
    | refl => exact meets.wellTyped accepted distinct member
    | tail _ enters ih => exact enters.wellTyped accepted distinct ih
  obtain ⟨values, catalog, typed⟩ := invariant
  exact typed.fits overOwn

/-- Adds two bits and a carry. -/
def fullAdder : Node :=
  let here : Source.Span := ⟨0, 0, 0⟩
  let wire : String → Expr := fun name => .wire here ⟨name, here⟩
  let gate : Gate → Expr → Expr → Expr := fun gate left right => .apply here (.gate gate) [left, right]
  { span := here
    id := ⟨"full_adder", here⟩
    params := []
    inputs := [⟨⟨"a", here⟩, here, .bit⟩, ⟨⟨"b", here⟩, here, .bit⟩, ⟨⟨"c", here⟩, here, .bit⟩]
    outputs := [⟨⟨"s", here⟩, here, .bit⟩, ⟨⟨"co", here⟩, here, .bit⟩]
    body := .system here []
      [⟨here, .single ⟨"s", here⟩, gate .xor (gate .xor (wire "a") (wire "b")) (wire "c")⟩,
        ⟨here, .single ⟨"co", here⟩, gate .or (gate .and (wire "a") (wire "b"))
          (gate .and (wire "c") (gate .xor (wire "a") (wire "b")))⟩] }

/-- Where no bits are left, the carry is passed on. -/
def adderBase : List Equation :=
  let here : Source.Span := ⟨0, 0, 0⟩
  [⟨here, .single ⟨"o", here⟩, .const here (.bits [])⟩,
    ⟨here, .single ⟨"co", here⟩, .wire here ⟨"c", here⟩⟩]

/-- Adds two numbers bit by bit. -/
def adder : Node :=
  let here : Source.Span := ⟨0, 0, 0⟩
  let wire : String → Expr := fun name => .wire here ⟨name, here⟩
  let shorter : Static.Expr := .binary .sub (.var "n") (.int 1)
  let first : String → Expr := fun name => .apply here (.select (.int 1)) [wire name]
  let rest : String → Expr := fun name => .apply here (.slice (.int 2) (.var "n")) [wire name]
  { span := here
    id := ⟨"adder", here⟩
    params := [⟨"n", here⟩]
    inputs := [⟨⟨"a", here⟩, here, .bits (.var "n")⟩, ⟨⟨"b", here⟩, here, .bits (.var "n")⟩,
      ⟨⟨"c", here⟩, here, .bit⟩]
    outputs := [⟨⟨"o", here⟩, here, .bits (.var "n")⟩, ⟨⟨"co", here⟩, here, .bit⟩]
    body := .choice here (.binary .eq (.var "n") (.int 0))
      (.system here [] adderBase)
      (.system here
        [⟨⟨"low", here⟩, some .bit⟩, ⟨⟨"mid", here⟩, some .bit⟩,
          ⟨⟨"rest", here⟩, some (.bits shorter)⟩]
        [⟨here, .tuple [⟨"low", here⟩, ⟨"mid", here⟩],
            .call here ⟨"full_adder", here⟩ [] [first "a", first "b", wire "c"]⟩,
          ⟨here, .tuple [⟨"rest", here⟩, ⟨"co", here⟩],
            .call here ⟨"adder", here⟩ [shorter] [rest "a", rest "b", wire "mid"]⟩,
          ⟨here, .single ⟨"o", here⟩, .apply here .concat [wire "low", wire "rest"]⟩]) }

/-- Without bits the adder meets the conditions of its base case. -/
theorem adderBase_meetsChosen (reading : Reading) :
    Instance.MeetsChosen {} [fullAdder, adder] reading ⟨adder, [0]⟩ := by
  have computed : checkedAs (fun typeds _ => Typed.residuals typeds) {}
      ([fullAdder] ++ [adder.reduced [] adderBase]) =
        some ([("full_adder", [])] ++ [("adder", [.binary .eq (.int 0) (.var "n")])]) := by
    decide +kernel
  have chosen : adder.body.chosen? reading (known ⟨adder, [0]⟩) = some ([], adderBase) := rfl
  have met : AllHold reading (valuation ⟨adder, [0]⟩) [.binary .eq (.int 0) (.var "n")] := by
    intro condition inside
    obtain rfl := List.mem_singleton.mp inside
    exact Static.holds_eq.mpr rfl
  exact MeetsChosen.of_residual chosen computed met

/-- The recursion of the adder is entered down to its base case.  There the conditions of the whole
node, which ask for a first bit, are not met, but those of the base case are. -/
theorem fits_of_enters_adder :
    let reading : Reading := ⟨fun _ => 0, fun _ _ => 0⟩
    ∃ typeds final, checkProgram {} [fullAdder, adder] = .ok typeds final ∧
      Instance.Meets typeds reading ⟨adder, [2]⟩ ∧ ¬ Instance.Meets typeds reading ⟨adder, [0]⟩ ∧
      Relation.ReflTransGen (Enters {} [fullAdder, adder] typeds reading) ⟨adder, [2]⟩
        ⟨adder, [0]⟩ ∧
      Instance.Fits [fullAdder, adder] reading ⟨adder, [0]⟩ := by
  intro reading
  let positive : Static.Expr := .binary .le (.int 1) (.var "n")
  let shorter : Static.Expr := .binary .sub (.var "n") (.int 1)
  let sliced : Static.Expr :=
    .binary .eq (.binary .add (.binary .sub (.var "n") (.int 2)) (.int 1)) shorter
  have computed : checkedAs (fun typeds _ => Typed.residuals typeds) {} [fullAdder, adder] =
      some [("full_adder", []), ("adder", [positive, positive, sliced, sliced,
        .binary .eq (.binary .add (.int 1) shorter) (.var "n")])] := by
    decide +kernel
  obtain ⟨typeds, final, accepted, residual⟩ := exists_of_checkedAs computed
  have overOwn : ∀ node ∈ [fullAdder, adder], node.PortsOverParams := by
    simp [Node.PortsOverParams, DeclaredTy.statics, fullAdder, adder, DeclaredTy.toTy, Ty.widths,
      Static.Expr.mentions, Node.paramNames, or_imp, forall_and]
  have meets : Instance.Meets typeds reading ⟨adder, [2]⟩ :=
    .of_residual residual (.tail _ (.head _)) (by decide)
  have meetsOne : Instance.Meets typeds reading ⟨adder, [1]⟩ :=
    .of_residual residual (.tail _ (.head _)) (by decide)
  have meetsBase : Instance.MeetsChosen {} [fullAdder, adder] reading ⟨adder, [0]⟩ :=
    adderBase_meetsChosen reading
  have unmet : ¬ Instance.Meets typeds reading ⟨adder, [0]⟩ := by
    rw [meets_iff_of_residuals residual]
    rintro ⟨constraints, listed, values, agrees, met⟩
    have empty : values "n" = 0 := agrees "n" 0 rfl
    simp only [List.mem_cons, Prod.mk.injEq, List.not_mem_nil, or_false] at listed
    obtain ⟨named, _⟩ | ⟨_, rfl⟩ := listed
    · exact absurd named (by decide)
    · have asked : positive.Holds reading values := met positive List.mem_cons_self
      have first : 1 ≤ values "n" := Static.holds_le.mp asked
      omega
  have first : Unfolds [fullAdder, adder] reading ⟨adder, [2]⟩ ⟨adder, [1]⟩ :=
    .call rfl (.tail _ (.head _)) (.head _) (.tail _ (.head _)) rfl rfl
  have second : Unfolds [fullAdder, adder] reading ⟨adder, [1]⟩ ⟨adder, [0]⟩ :=
    .call rfl (.tail _ (.head _)) (.head _) (.tail _ (.head _)) rfl rfl
  have path : Relation.ReflTransGen (Enters {} [fullAdder, adder] typeds reading) ⟨adder, [2]⟩
      ⟨adder, [0]⟩ :=
    .tail (.single ⟨first, fun _ => .inl meetsOne⟩) ⟨second, fun _ => .inr meetsBase⟩
  exact ⟨typeds, final, accepted, meets, unmet, path,
    fits_of_enters accepted (by decide) overOwn reading (.tail _ (.head _)) meets path⟩

/-- Consumes a bus bit by bit. -/
def chain : Node :=
  let here : Source.Span := ⟨0, 0, 0⟩
  let shorter : Static.Expr := .binary .sub (.var "n") (.int 1)
  { span := here
    id := ⟨"chain", here⟩
    params := [⟨"n", here⟩]
    inputs := [⟨⟨"bus", here⟩, here, .bits (.var "n")⟩]
    outputs := [⟨⟨"out", here⟩, here, .bit⟩]
    body := .choice here (.binary .eq (.var "n") (.int 0))
      (.system here [] [⟨here, .single ⟨"out", here⟩, .const here (.bit false)⟩])
      (.system here [⟨⟨"rest", here⟩, some (.bits shorter)⟩]
        [⟨here, .single ⟨"rest", here⟩,
            .apply here (.slice (.int 2) (.var "n")) [.wire here ⟨"bus", here⟩]⟩,
          ⟨here, .single ⟨"out", here⟩,
            .call here ⟨"chain", here⟩ [shorter] [.wire here ⟨"rest", here⟩]⟩]) }

/-- Consumes a bus that is one bit longer. -/
def longer : Node :=
  let here : Source.Span := ⟨0, 0, 0⟩
  let length : Static.Expr := .binary .add (.var "m") (.int 1)
  { span := here
    id := ⟨"longer", here⟩
    params := [⟨"m", here⟩]
    inputs := [⟨⟨"bus", here⟩, here, .bits length⟩]
    outputs := [⟨⟨"out", here⟩, here, .bit⟩]
    body := .system here [] [⟨here, .single ⟨"out", here⟩,
      .call here ⟨"chain", here⟩ [length] [.wire here ⟨"bus", here⟩]⟩] }

/-- Reads the first bit of a bus, also where it has none. -/
def peek : Node :=
  let here : Source.Span := ⟨0, 0, 0⟩
  { span := here
    id := ⟨"peek", here⟩
    params := [⟨"n", here⟩]
    inputs := [⟨⟨"bus", here⟩, here, .bits (.var "n")⟩]
    outputs := [⟨⟨"out", here⟩, here, .bit⟩]
    body := .choice here (.binary .eq (.int 0) (.var "n"))
      (.system here [] [⟨here, .single ⟨"out", here⟩,
        .apply here (.select (.int 1)) [.wire here ⟨"bus", here⟩]⟩])
      (.system here [] [⟨here, .single ⟨"out", here⟩,
        .call here ⟨"peek", here⟩ [.int 0] [.const here (.bits [])]⟩]) }

/-- An instance that meets the conditions of its node and calls, from the node itself, one that
does not fit. -/
theorem selfCall_unfit :
    let reading : Reading := ⟨fun _ => 0, fun _ _ => 0⟩
    ∃ typeds final, checkProgram {} [peek] = .ok typeds final ∧
      ([peek].map (·.id.name)).Nodup ∧ (∀ node ∈ [peek], node.PortsOverParams) ∧
      Instance.Meets typeds reading ⟨peek, [1]⟩ ∧
      Relation.ReflTransGen (Unfolds [peek] reading) ⟨peek, [1]⟩ ⟨peek, [0]⟩ ∧
      ¬ Instance.Fits [peek] reading ⟨peek, [0]⟩ := by
  intro reading
  have computed : checkedAs (fun typeds _ => Typed.residuals typeds) {} [peek] =
      some [("peek", [.binary .le (.int 1) (.var "n")])] := by
    decide +kernel
  obtain ⟨typeds, final, accepted, residual⟩ := exists_of_checkedAs computed
  have unfolds : Unfolds [peek] reading ⟨peek, [1]⟩ ⟨peek, [0]⟩ :=
    .call rfl (.head _) (.head _) (.head _) rfl rfl
  refine ⟨typeds, final, accepted, by decide, ?_, .of_residual residual (.head _) (by decide),
    .single unfolds, fun fits => ?_⟩
  · simp [Node.PortsOverParams, DeclaredTy.statics, peek, DeclaredTy.toTy, Ty.widths,
      Static.Expr.mentions, Node.paramNames]
  · obtain ⟨values, tys, agrees, annotated, all⟩ := fits [] _ rfl
    cases annotated
    obtain ⟨ty, _, value⟩ := all _ (.head _)
    have empty : values "n" = 0 := agrees "n" 0 rfl
    -- The bus has no bits, but its first one is selected.
    cases value with
    | apply args admits =>
        cases admits with
        | @select _ width _ inside =>
            obtain ⟨bus, _⟩ := List.forall₂_cons.mp args
            cases bus with
            | wire bound =>
                obtain rfl : values "n" = width := GroundTy.bits.inj (Option.some.inj bound)
                have positive : 1 ≤ values "n" := inside
                omega

end Instance

end CircuitWidths
