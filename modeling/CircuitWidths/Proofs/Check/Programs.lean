import CircuitWidths.Proofs.Check.Written

/-!
# Accepted programs

The check of an accepted node has three phases (`Circuit.Node.Phases`), and an accepted program is a
sequence of accepted nodes (`Checker.History`).  While a node is checked, the signatures that it can
call are those of the accepted nodes before it, and its own without conditions.
-/

namespace CircuitWidths

open CheckM Circuit TypeStore

variable {checker next : Checker} {node : Node} {typed : Typed.Node}

namespace Circuit.Node

/-- How an accepted node was checked: its ports were declared, its body was checked, and its
conditions were solved. -/
structure Phases (node : Node) (checker : Checker) (typed : Typed.Node) (next : Checker) where
  inputs : List Typed.Wire
  outputs : List Typed.Wire
  types : TypeStore
  body : Typed.Block
  checked : Checker
  introduceRun : node.introduce checker = .ok (inputs, outputs)
    { checker with types := types, catalog := node.callable checker.catalog }
  introduced : node.Introduced checker.types inputs outputs types
  bodyRun : (portEnv inputs outputs).checkBlock node.body
    { checker with types := types, catalog := node.callable checker.catalog } = .ok body checked
  grows : Checker.Grows
    { checker with types := types, catalog := node.callable checker.catalog } checked
  accepts : Env.Accepts node.portScope (node.callable checker.catalog) node.body body checked
  concluded : node.Concluded body checked typed next

/-- An accepted node has an accepted definition. -/
theorem checkDefinition_of_check (accepted : node.check checker = .ok typed next) :
    node.checkDefinition checker = .ok typed next := by
  unfold check at accepted
  split at accepted
  · cases accepted
    assumption
  · cases accepted
  · cases accepted

/-- The check of an accepted node has gone through all phases. -/
theorem exists_phases (ready : checker.Ready) (accepted : node.check checker = .ok typed next) :
    Nonempty (node.Phases checker typed next) := by
  have run := checkDefinition_of_check accepted
  rw [checkDefinition_eq] at run
  obtain ⟨⟨inputs, outputs⟩, started, introduceRun, run⟩ := exists_of_bind_ok run
  obtain ⟨types, rfl, introduced⟩ := (node.introduce_ends ready.types).returned introduceRun
  obtain ⟨body, checked, bodyRun, concludeRun⟩ := exists_of_bind_ok run
  obtain ⟨wellFormed, grows, accepts⟩ :=
    Ends.returned (introduced.body_checks ready.catalog) bodyRun
  have concluded :=
    (introduced.concludes wellFormed accepts.owned grows.types).returned concludeRun
  exact ⟨⟨inputs, outputs, types, body, checked, introduceRun, introduced, bodyRun, grows, accepts,
    concluded⟩⟩

/-- What meets the conditions of an accepted node can be changed at eliminated variables so that
its typed body obeys the rules. -/
theorem Accepted.restores {reading : Static.Reading} {values : Static.Valuation}
    (accepted : node.Accepted checker typed next)
    (met : Static.AllHold reading values typed.signature.constraints) :
    ∃ (changed : Static.Valuation) (grounds : TyVar → GroundTy),
      (∀ name, name ∈ node.paramNames ∨ Static.Mentioned name typed.signature.constraints →
        changed name = values name) ∧
      node.body.Elaborates ⟨reading, changed, grounds⟩ (node.callable checker.catalog)
        node.portScope typed.body := by
  obtain ⟨pending, solved, obeys⟩ := accepted.solved
  obtain ⟨changed, metBefore, kept⟩ := (Static.solve_reduces solved).restores values met
  obtain ⟨grounds, respects, _⟩ :=
    accepted.ready.types.exists_respects ⟨reading, changed, fun _ => .unit⟩
  exact ⟨changed, grounds, kept, obeys ⟨reading, changed, grounds⟩ respects metBefore⟩

end Circuit.Node

/-! ## Signatures of nodes -/

/-- The signature has the ports of the node, with whatever conditions. -/
def Signature.Describes (signature : Signature) (node : Node) : Prop :=
  signature = { node.provisional with constraints := signature.constraints }

/-- Every width in a signature is declared at a port of the node that it describes. -/
theorem Signature.Describes.exists_port {signature : Signature} {width : Static.Expr}
    (describes : signature.Describes node)
    (inside : width ∈ Ty.widthsAll (signature.inputs ++ signature.outputs)) :
    ∃ port ∈ node.inputs ++ node.outputs, width ∈ port.declared.statics := by
  rw [describes] at inside
  obtain ⟨ty, member, written⟩ := Ty.mem_widthsAll.mp inside
  simp only [Node.provisional, ← List.map_append] at member
  obtain ⟨port, declared, rfl⟩ := List.mem_map.mp member
  exact ⟨port, declared, written⟩

/-- Every known signature has the ports of one of the nodes. -/
def Catalog.DescribedBy (nodes : List Node) (catalog : Catalog) : Prop :=
  ∀ name signature, catalog.get? name = some signature →
    ∃ node ∈ nodes, node.id.name = name ∧ signature.Describes node

/-- A catalog that describes nodes still does when one of them is known to its own body. -/
theorem Catalog.DescribedBy.callable {nodes : List Node} {catalog : Catalog}
    (described : catalog.DescribedBy nodes) (member : node ∈ nodes) :
    (node.callable catalog).DescribedBy nodes := by
  intro name signature known
  rw [Circuit.Node.callable, Catalog.get?_register] at known
  by_cases same : name = node.id.name
  · rw [if_pos same] at known
    cases known
    exact ⟨node, member, same.symm, rfl⟩
  · rw [if_neg same] at known
    exact described name signature known

/-- The widths of the ports are over the parameters of the node. -/
def Circuit.Node.PortsOverParams (node : Node) : Prop :=
  ∀ port ∈ node.inputs ++ node.outputs, ∀ width ∈ port.declared.statics, ∀ name,
    width.mentions name = true → name ∈ node.paramNames

/-! ## Sequences of accepted nodes -/

namespace Checker

/-- The nodes whose checks led to the state, all of them accepted, the newest first. -/
inductive History (settings : CheckSettings) : List (Node × Typed.Node) → Checker → Prop
  | start : History settings [] (.start settings)
  | accept {past : List (Node × Typed.Node)} {checker next : Checker} {node : Node}
      {typed : Typed.Node} (earlier : History settings past checker)
      (accepted : node.check checker = .ok typed next) :
      History settings ((node, typed) :: past) next

namespace History

variable {settings : CheckSettings} {past : List (Node × Typed.Node)}

/-- A state with a history is one that checking reaches. -/
theorem reached (history : History settings past checker) : checker.Reached := by
  induction history with
  | start => exact .start settings
  | @accept past checker next node typed _ accepted ih =>
      have reached := Reached.check ih node
      rwa [accepted] at reached

/-- Every accepted node was checked after the nodes that were accepted before it. -/
theorem exists_of_mem (history : History settings past checker)
    (member : (node, typed) ∈ past) : ∃ earlier before after,
      History settings earlier before ∧ node.check before = .ok typed after ∧
        ∀ pair ∈ earlier, pair ∈ past := by
  induction history with
  | start => cases member
  | @accept past checker next newest newestTyped earlier accepted ih =>
      rcases List.mem_cons.mp member with same | older
      · cases same
        exact ⟨past, checker, next, earlier, accepted,
          fun _ inside => List.mem_cons_of_mem _ inside⟩
      · obtain ⟨first, before, after, history, checked, inside⟩ := ih older
        exact ⟨first, before, after, history, checked,
          fun pair known => List.mem_cons_of_mem _ (inside pair known)⟩

/-- A known signature is the one of an accepted node. -/
theorem exists_of_known (history : History settings past checker) {name : String}
    {signature : Signature} (known : checker.catalog.get? name = some signature) :
    ∃ pair ∈ past, pair.1.id.name = name ∧ pair.2.signature = signature := by
  induction history with
  | start => cases known
  | @accept past checker next node typed earlier accepted ih =>
      obtain ⟨phases⟩ := node.exists_phases earlier.reached.ready accepted
      rw [phases.concluded.catalog, phases.grows.catalog, Catalog.get?_register,
        Circuit.Node.callable, Catalog.get?_register] at known
      by_cases same : name = node.id.name
      · rw [if_pos same] at known
        exact ⟨(node, typed), List.mem_cons_self, same.symm, Option.some.inj known⟩
      · rw [if_neg same, if_neg same] at known
        obtain ⟨pair, inside, found⟩ := ih known
        exact ⟨pair, List.mem_cons_of_mem _ inside, found⟩

/-- The typed form of an accepted node has its name, and its signature has its ports. -/
theorem typed_eq (history : History settings past checker) (member : (node, typed) ∈ past) :
    typed.id = node.id ∧ typed.signature.Describes node := by
  obtain ⟨_, before, after, earlier, accepted, _⟩ := history.exists_of_mem member
  obtain ⟨phases⟩ := node.exists_phases earlier.reached.ready accepted
  exact ⟨congrArg Typed.Node.id phases.concluded.shape, phases.concluded.signature⟩

/-- The known signatures describe nodes of the history. -/
theorem describedBy {nodes : List Node} (history : History settings past checker)
    (among : ∀ node typed, (node, typed) ∈ past → node ∈ nodes) :
    checker.catalog.DescribedBy nodes := by
  intro name signature known
  obtain ⟨⟨node, typed⟩, inside, named, rfl⟩ := history.exists_of_known known
  exact ⟨node, among node typed inside, named, (history.typed_eq inside).2⟩

/-- The settings are never changed. -/
theorem settings_eq (history : History settings past checker) : checker.settings = settings := by
  induction history with
  | start => rfl
  | @accept past checker next node typed earlier accepted ih =>
      obtain ⟨phases⟩ := node.exists_phases earlier.reached.ready accepted
      rw [phases.concluded.settings, phases.grows.settings]
      exact ih

end History

end Checker

namespace Circuit

variable {settings : CheckSettings} {nodes : List Node} {typeds : List Typed.Node}

/-- The nodes of two lists are checked one after another. -/
theorem checkNodes_append (first second : List Node) :
    checkNodes (first ++ second) = (do
      let typeds ← checkNodes first
      let others ← checkNodes second
      pure (typeds ++ others)) :=
  List.mapM_append

/-- The nodes of an accepted sequence are the newest part of the history. -/
theorem checkNodes_history (nodes : List Node) : ∀ {past : List (Node × Typed.Node)}
    {typeds : List Typed.Node} {checker : Checker}, checker.History settings past →
      checkNodes nodes checker = .ok typeds next →
      ∃ newest, next.History settings (newest ++ past) ∧
        newest.map Prod.fst = nodes.reverse ∧ newest.map Prod.snd = typeds.reverse := by
  induction nodes with
  | nil =>
      intro past typeds checker history accepted
      cases accepted
      exact ⟨[], history, rfl, rfl⟩
  | cons node nodes ih =>
      intro past typeds checker history accepted
      rw [checkNodes, List.mapM_cons] at accepted
      obtain ⟨typed, middle, headRun, accepted⟩ := exists_of_bind_ok accepted
      obtain ⟨others, last, tailRun, accepted⟩ := exists_of_bind_ok accepted
      cases accepted
      obtain ⟨newest, later, sameNodes, sameTypeds⟩ := ih (history.accept headRun) tailRun
      refine ⟨newest ++ [(node, typed)], ?_, ?_, ?_⟩
      · rw [List.append_assoc]
        exact later
      · rw [List.map_append, sameNodes, List.reverse_cons]
        rfl
      · rw [List.map_append, sameTypeds, List.reverse_cons]
        rfl

/-- An accepted program leaves a state whose history is the program. -/
theorem checkProgram_history (accepted : checkProgram settings nodes = .ok typeds next) :
    ∃ past, next.History settings past ∧
      (∀ node, node ∈ nodes ↔ ∃ typed, (node, typed) ∈ past) ∧
      (∀ typed, typed ∈ typeds ↔ ∃ node, (node, typed) ∈ past) := by
  obtain ⟨past, history, sameNodes, sameTypeds⟩ := checkNodes_history nodes .start accepted
  rw [List.append_nil] at history
  refine ⟨past, history, fun node => ?_, fun typed => ?_⟩
  · rw [← List.mem_reverse, ← sameNodes, List.mem_map]
    simp
  · rw [← List.mem_reverse, ← sameTypeds, List.mem_map]
    simp

private theorem exists_of_mem_checkNodes (nodes : List Node) : ∀ {checker : Checker}
    {typeds : List Typed.Node}, checkNodes nodes checker = .ok typeds next → typed ∈ typeds →
      ∃ before node after earlier middle last, nodes = before ++ node :: after ∧
        checkNodes before checker = .ok earlier middle ∧ node.check middle = .ok typed last := by
  induction nodes with
  | nil =>
      intro checker typeds accepted member
      cases accepted
      cases member
  | cons first nodes ih =>
      intro checker typeds accepted member
      rw [checkNodes, List.mapM_cons] at accepted
      obtain ⟨firstTyped, second, headRun, accepted⟩ := exists_of_bind_ok accepted
      obtain ⟨others, last, tailRun, accepted⟩ := exists_of_bind_ok accepted
      cases accepted
      rcases List.mem_cons.mp member with rfl | later
      · exact ⟨[], first, nodes, [], checker, second, rfl, rfl, headRun⟩
      · obtain ⟨before, node, after, earlier, middle, last, rfl, beforeRun, nodeRun⟩ :=
          ih tailRun later
        refine ⟨first :: before, node, after, firstTyped :: earlier, middle, last, rfl, ?_, nodeRun⟩
        rw [checkNodes, List.mapM_cons, bind_of_ok headRun]
        exact bind_of_ok beforeRun

/-- Every typed node of an accepted program comes from the check of one of its nodes, after those
before it. -/
theorem exists_of_mem_checkProgram (accepted : checkProgram settings nodes = .ok typeds next)
    (member : typed ∈ typeds) :
    ∃ before node after earlier middle last, nodes = before ++ node :: after ∧
      checkProgram settings before = .ok earlier middle ∧ node.check middle = .ok typed last :=
  exists_of_mem_checkNodes nodes accepted member

/-- What is seen of an accepted program and of the state in which it is left. -/
def checkedAs {α : Type} (view : List Typed.Node → Checker → α) (settings : CheckSettings)
    (nodes : List Node) : Option α :=
  match checkProgram settings nodes with
  | .ok typeds final => some (view typeds final)
  | .error _ _ => none

/-- What was computed of an accepted program is true of its outcome. -/
theorem exists_of_checkedAs {α : Type} {view : List Typed.Node → Checker → α} {seen : α}
    (computed : checkedAs view settings nodes = some seen) :
    ∃ typeds final, checkProgram settings nodes = .ok typeds final ∧ view typeds final = seen := by
  unfold checkedAs at computed
  split at computed
  · rename_i typeds final accepted
    exact ⟨typeds, final, accepted, Option.some.inj computed⟩
  · cases computed

end Circuit

/-- The names and the conditions of typed nodes. -/
def Typed.residuals (typeds : List Typed.Node) : List (String × List Static.Expr) :=
  typeds.map fun typed => (typed.id.name, typed.signature.constraints)

end CircuitWidths
