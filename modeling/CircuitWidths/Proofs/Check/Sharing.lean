import CircuitWidths.Proofs.Check.Programs

/-!
# Calls of one node

The conditions of a node may mention widths that were generated when it was checked.  A call
replaces the parameters of the called node only, so all calls of a node from one body speak about
the same such widths.  Hence conditions that each call can meet alone can be met together exactly
if the same values of these widths will do for all of them.
-/

namespace CircuitWidths

open Circuit
open Static (Reading Valuation AllHold)

/-- The conditions hold for some values of the variables other than the parameters. -/
def Static.Meetable (reading : Reading) (params : List String) (values : Valuation)
    (conditions : List Static.Expr) : Prop :=
  ∃ extended : Valuation, (∀ name ∈ params, extended name = values name) ∧
    AllHold reading extended conditions

/-- The variable stands in the conditions of the signature, but is no parameter of it. -/
def Signature.Leftover (signature : Signature) (name : String) : Prop :=
  Static.Mentioned name signature.constraints ∧ name ∉ signature.params

/-- The calls in the body of a node that go to the given name. -/
def Circuit.Node.callsOf (node : Node) (name : String) : List Call :=
  node.body.calls.filter fun call => call.node = name

/-- The conditions of all these calls. -/
def Circuit.Node.demandsOf (node : Node) (checker : Checker) (name : String) : List Static.Expr :=
  (node.callsOf name).flatMap (node.callable checker.catalog).demands

private theorem Static.allHold_congr {reading : Reading} {values others : Valuation}
    {conditions : List Static.Expr}
    (agree : ∀ name, Static.Mentioned name conditions → values name = others name)
    (met : AllHold reading values conditions) : AllHold reading others conditions := by
  intro condition inside
  have same : condition.value reading values = condition.value reading others :=
    Static.Expr.value_congr fun name mentioned => agree name ⟨condition, inside, mentioned⟩
  have holds := met condition inside
  rwa [Static.Expr.Holds, same] at holds

namespace Catalog

variable {catalog : Catalog} {call : Call} {signature : Signature}

/-- A variable in what a call demands comes from its static arguments, or is left over from the
called node. -/
theorem mentioned_demands (known : catalog.get? call.node = some signature) {name : String}
    (mentioned : Static.Mentioned name (catalog.demands call)) :
    (∃ static ∈ call.statics, static.mentions name = true) ∨ signature.Leftover name := by
  obtain ⟨condition, asked, inside⟩ := mentioned
  cases outcome : catalog.instantiate call.node call.statics with
  | error error =>
      rw [demands, outcome] at asked
      cases asked
  | ok instantiated =>
      obtain ⟨original, found, arity, rfl⟩ := exists_of_instantiate outcome
      obtain rfl : signature = original := Option.some.inj (known.symm.trans found)
      rw [demands_eq outcome] at asked
      obtain ⟨condition, member, rfl⟩ := List.mem_map.mp asked
      rcases Static.Expr.mentions_substitute_zip arity inside with ⟨before, notParam⟩ | written
      · exact .inr ⟨⟨condition, member, before⟩, notParam⟩
      · exact .inl written

end Catalog

section Calls

variable {params : List String} {catalog : Catalog} {calls : List Call} {name : String}
  {signature : Signature}

/-- Calls of one node can be met together if each can be met with the same leftovers. -/
theorem Static.meetable_of_shared (reading : Reading) (values shared : Valuation)
    (known : catalog.get? name = some signature) (named : ∀ call ∈ calls, call.node = name)
    (overOwn : ∀ call ∈ calls, ∀ static ∈ call.statics, ∀ var,
      static.mentions var = true → var ∈ params)
    (each : ∀ call ∈ calls, ∃ alone : Valuation, (∀ var ∈ params, alone var = values var) ∧
      (∀ var, signature.Leftover var → alone var = shared var) ∧
      AllHold reading alone (catalog.demands call)) :
    Static.Meetable reading params values (calls.flatMap catalog.demands) := by
  classical
  refine ⟨fun var => if var ∈ params then values var else shared var, fun var param => ?_, ?_⟩
  · exact if_pos param
  · intro condition asked
    obtain ⟨call, inside, demanded⟩ := List.mem_flatMap.mp asked
    obtain ⟨alone, onParams, onLeftovers, met⟩ := each call inside
    refine Static.allHold_congr (fun var mentioned => ?_) met condition demanded
    by_cases param : var ∈ params
    · rw [if_pos param, onParams var param]
    · rw [if_neg param]
      -- Outside the parameters, the conditions of a call mention leftovers only.
      rcases Catalog.mentioned_demands (named call inside ▸ known) mentioned with
        ⟨static, written, mentions⟩ | leftover
      · exact absurd (overOwn call inside static written var mentions) param
      · exact onLeftovers var leftover

end Calls

private theorem Circuit.Node.Phases.demandsOf_pending {node : Node} {checker next : Checker}
    {typed : Typed.Node} (phases : node.Phases checker typed next) (name : String) :
    ∀ condition ∈ node.demandsOf checker name,
      condition ∈ phases.checked.constraints.pending := by
  intro condition asked
  obtain ⟨call, inside, demanded⟩ := List.mem_flatMap.mp asked
  exact phases.accepts.demanded call (List.mem_filter.mp inside).1 condition demanded

/-- How the calls of one node from the body of another depend on each other, where the parameters of
the caller have the given values. -/
structure Circuit.Node.SharesLeftovers (node : Node) (checker : Checker) (name : String)
    (signature : Signature) (reading : Reading) (values : Valuation) : Prop where
  /-- They can be met together exactly if the same leftovers will do for each. -/
  together_iff : Static.Meetable reading node.paramNames values (node.demandsOf checker name) ↔
    ∃ shared : Valuation, ∀ call ∈ node.callsOf name, ∃ alone : Valuation,
      (∀ var ∈ node.paramNames, alone var = values var) ∧
      (∀ var, signature.Leftover var → alone var = shared var) ∧
      AllHold reading alone ((node.callable checker.catalog).demands call)
  /-- They are independent if nothing is left over. -/
  independent : (∀ var, ¬ signature.Leftover var) →
    (∀ call ∈ node.callsOf name, Static.Meetable reading node.paramNames values
      ((node.callable checker.catalog).demands call)) →
    Static.Meetable reading node.paramNames values (node.demandsOf checker name)
  /-- Their conditions are pending when the body of the caller has been checked. -/
  emitted : ∀ typed next, node.check checker = .ok typed next →
    ∃ phases : node.Phases checker typed next,
      ∀ condition ∈ node.demandsOf checker name, condition ∈ phases.checked.constraints.pending
  /-- What meets the conditions of the caller meets them together. -/
  inherited : ∀ typed next, node.check checker = .ok typed next →
    AllHold reading values typed.signature.constraints →
    Static.Meetable reading node.paramNames values (node.demandsOf checker name)

/-- **Calls share what the called node has left over.**  After an accepted program, take any further
node and any node that it can call, at static arguments over its parameters.  Conditions that each
of the calls can meet alone can be met together exactly if the same values of the leftovers of the
called node will do for all of them; and the caller, if it is accepted, asks for all of them
together. -/
theorem Circuit.Node.calls_share_leftovers {settings : CheckSettings} {nodes : List Node}
    {typeds : List Typed.Node} {checker : Checker}
    (accepted : checkProgram settings nodes = .ok typeds checker) (node : Node) {name : String}
    {signature : Signature} (known : (node.callable checker.catalog).get? name = some signature)
    (overOwn : ∀ call ∈ node.callsOf name, ∀ static ∈ call.statics, ∀ var,
      static.mentions var = true → var ∈ node.paramNames)
    (reading : Reading) (values : Valuation) :
    node.SharesLeftovers checker name signature reading values := by
  have named : ∀ call ∈ node.callsOf name, call.node = name := fun call inside =>
    of_decide_eq_true (List.mem_filter.mp inside).2
  have glue := fun shared => Static.meetable_of_shared reading values shared known named overOwn
  obtain ⟨past, history, _⟩ := checkProgram_history accepted
  have ready := history.reached.ready
  refine ⟨⟨?_, fun ⟨shared, each⟩ => glue shared each⟩, fun none alone => ?_, ?_, ?_⟩
  · rintro ⟨joint, onParams, met⟩
    refine ⟨joint, fun call inside => ⟨joint, onParams, fun _ _ => rfl, ?_⟩⟩
    exact fun condition asked => met condition (List.mem_flatMap.mpr ⟨call, inside, asked⟩)
  · refine glue values fun call inside => ?_
    obtain ⟨extended, onParams, met⟩ := alone call inside
    exact ⟨extended, onParams, fun var leftover => absurd leftover (none var), met⟩
  · intro typed next checked
    obtain ⟨phases⟩ := node.exists_phases ready checked
    exact ⟨phases, phases.demandsOf_pending name⟩
  · intro typed next checked met
    obtain ⟨phases⟩ := node.exists_phases ready checked
    obtain ⟨changed, metBefore, kept⟩ :=
      (Static.solve_reduces phases.concluded.solved).restores values met
    exact ⟨changed, fun name param => kept name (.inl param),
      fun condition asked => metBefore condition (phases.demandsOf_pending name condition asked)⟩

namespace Circuit

/-- Puts two wires behind each other whose widths are known together only. -/
def join : Node :=
  let here : Source.Span := ⟨0, 0, 0⟩
  { span := here
    id := ⟨"join", here⟩
    params := [⟨"n", here⟩]
    inputs := []
    outputs := [⟨⟨"o", here⟩, here, .bits (.var "n")⟩]
    body := .system here [⟨⟨"t", here⟩, none⟩, ⟨⟨"u", here⟩, none⟩] [⟨here, .single ⟨"o", here⟩,
      .apply here .concat [.wire here ⟨"t", here⟩, .wire here ⟨"u", here⟩]⟩] }

/-- Calls `join` twice. -/
def joins (params : List String) (first second : Static.Expr) : Node :=
  let here : Source.Span := ⟨0, 0, 0⟩
  { span := here
    id := ⟨"joins", here⟩
    params := params.map (⟨·, here⟩)
    inputs := []
    outputs := [⟨⟨"a", here⟩, here, .bits first⟩, ⟨⟨"b", here⟩, here, .bits second⟩]
    body := .system here []
      [⟨here, .single ⟨"a", here⟩, .call here ⟨"join", here⟩ [first] []⟩,
        ⟨here, .single ⟨"b", here⟩, .call here ⟨"join", here⟩ [second] []⟩] }

/-- What is known of `join`. -/
def joinSignature : Signature :=
  ⟨[], [.bits (.var "n")], ["n"],
    [.binary .eq (.binary .add (.var "$w0") (.var "$w1")) (.var "n")]⟩

private theorem exists_checked_join (caller : Node) (other : "join" ≠ caller.id.name) :
    ∃ typeds checker, checkProgram {} [join] = .ok typeds checker ∧
      (caller.callable checker.catalog).get? "join" = some joinSignature := by
  have computed : checkedAs (fun _ checker => checker.catalog.get? "join") {} [join] =
      some (some joinSignature) := by
    decide +kernel
  obtain ⟨typeds, checker, accepted, known⟩ := exists_of_checkedAs computed
  refine ⟨typeds, checker, accepted, ?_⟩
  rw [Node.callable, Catalog.get?_register, if_neg other]
  exact known

/-- Both calls ask of the same two widths that they add up, to `m` and to the square of `m`. -/
theorem Node.calls_share_leftovers_joins :
    let node := joins ["m"] (.var "m") (.binary .mul (.var "m") (.var "m"))
    ∃ typeds checker, checkProgram {} [join] = .ok typeds checker ∧
      (node.callable checker.catalog).get? "join" = some joinSignature ∧
      (∀ call ∈ node.callsOf "join", ∀ static ∈ call.statics, ∀ var,
        static.mentions var = true → var ∈ node.paramNames) ∧
      joinSignature.Leftover "$w0" ∧
      node.SharesLeftovers checker "join" joinSignature ⟨fun _ => 0, fun _ _ => 0⟩ fun _ => 3 := by
  intro node
  obtain ⟨typeds, checker, accepted, known⟩ := exists_checked_join node (by decide)
  have calls : node.callsOf "join" = [⟨"join", [.var "m"]⟩,
      ⟨"join", [.binary .mul (.var "m") (.var "m")]⟩] := by
    decide +kernel
  have overOwn : ∀ call ∈ node.callsOf "join", ∀ static ∈ call.statics, ∀ var,
      static.mentions var = true → var ∈ node.paramNames := by
    rw [calls]
    simp [Static.Expr.mentions, node, joins, Node.paramNames]
  exact ⟨typeds, checker, accepted, known, overOwn,
    ⟨⟨_, List.mem_singleton_self _, by decide⟩, by decide⟩,
    Node.calls_share_leftovers accepted node known overOwn _ _⟩

/-- Two calls that can be met each alone, but not together, in a program that is accepted. -/
theorem joins_dependent :
    let node := joins [] (.int 3) (.int 4)
    let reading : Reading := ⟨fun _ => 0, fun _ _ => 0⟩
    let values : Valuation := fun _ => 0
    checkedAs (fun typeds _ => Typed.residuals typeds) {} [join, node] = some
      [("join", [.binary .eq (.binary .add (.var "$w0") (.var "$w1")) (.var "n")]),
        ("joins", [.binary .eq (.binary .add (.var "$w0") (.var "$w1")) (.int 3),
          .binary .eq (.binary .add (.var "$w0") (.var "$w1")) (.int 4)])] ∧
      ∃ typeds checker, checkProgram {} [join] = .ok typeds checker ∧
        (node.callable checker.catalog).get? "join" = some joinSignature ∧
        (∀ call ∈ node.callsOf "join", ∀ static ∈ call.statics, ∀ var,
          static.mentions var = true → var ∈ node.paramNames) ∧
        (∀ call ∈ node.callsOf "join", Static.Meetable reading node.paramNames values
          ((node.callable checker.catalog).demands call)) ∧
        ¬ Static.Meetable reading node.paramNames values (node.demandsOf checker "join") := by
  intro node reading values
  obtain ⟨typeds, checker, accepted, known⟩ := exists_checked_join node (by decide)
  have calls : node.callsOf "join" = [⟨"join", [.int 3]⟩, ⟨"join", [.int 4]⟩] := by
    decide +kernel
  have demands : ∀ width : Static.Expr,
      (node.callable checker.catalog).demands ⟨"join", [width]⟩ =
        [.binary .eq (.binary .add (.var "$w0") (.var "$w1")) width] := by
    intro width
    let call : Call := ⟨"join", [width]⟩
    have called : (node.callable checker.catalog).get? call.node = some joinSignature := known
    exact Catalog.demands_of_known called rfl
  refine ⟨by decide +kernel, typeds, checker, accepted, known, ?_, ?_, ?_⟩
  · rw [calls]
    simp [Static.Expr.mentions]
  · rw [calls]
    simp only [List.forall_mem_cons, demands]
    refine ⟨⟨fun name => if name = "$w0" then 3 else 0, ?_, ?_⟩,
      ⟨fun name => if name = "$w0" then 4 else 0, ?_, ?_⟩, by simp⟩
    · simp [node, joins, Node.paramNames]
    · decide
    · simp [node, joins, Node.paramNames]
    · decide
  · rintro ⟨joint, _, met⟩
    -- Both calls ask for the same two widths, with different sums.
    rw [Node.demandsOf, calls] at met
    simp only [List.flatMap_cons, List.flatMap_nil, demands] at met
    have three : joint "$w0" + joint "$w1" = 3 :=
      Static.holds_eq.mp (met _ List.mem_cons_self)
    have four : joint "$w0" + joint "$w1" = 4 :=
      Static.holds_eq.mp (met _ (List.mem_cons_of_mem _ List.mem_cons_self))
    omega

end Circuit

end CircuitWidths
