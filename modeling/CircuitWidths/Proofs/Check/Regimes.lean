import CircuitWidths.Proofs.Check.Discipline

/-!
# Regimes

A regime is a discipline of widths together with what is true of the catalog of known signatures.
The check of a node that keeps to a regime leaves the state so, whether the node is accepted or not
(`Node.check_keepsTo`).
-/

namespace CircuitWidths

open CheckM Circuit

/-- A discipline of widths, and what is then true of the known signatures. -/
structure Regime extends Discipline where
  known : Nat → Catalog → Prop
  known_mono : ∀ {count more catalog}, count ≤ more → known count catalog → known more catalog
  covers : ∀ {count catalog}, known count catalog → toDiscipline.Covers count catalog

/-- What is written in the node keeps to the regime, and so do its signatures. -/
structure Circuit.Node.KeepsTo (regime : Regime) (node : Node) : Prop where
  ports : ∀ port ∈ node.inputs ++ node.outputs, ∀ width ∈ port.declared.statics, ∀ count,
    regime.width count width
  body : regime.toDiscipline.Governs node.body
  callable : ∀ {count catalog}, regime.known count catalog →
    regime.known count (node.callable catalog)
  final : ∀ {count catalog pending solved}, regime.known count catalog →
    (∀ condition ∈ pending, regime.condition count condition) →
    Static.solve node.paramNames pending = .ok solved → regime.known count
      (catalog.register node.id.name { node.provisional with constraints := solved })

/-- Types, pending conditions and known signatures keep to the regime. -/
structure Checker.KeepsTo (regime : Regime) (origin : TypeStore) (checker : Checker) : Prop where
  conforms : checker.Conforms regime.toDiscipline origin
  closed : checker.catalog.Closed
  known : regime.known checker.nextWidth checker.catalog

variable {regime : Regime} {origin : TypeStore} {checker next : Checker} {α : Type}

/-- Known signatures that keep to the regime are covered by its discipline. -/
theorem Checker.KeepsTo.covers (kept : checker.KeepsTo regime origin) :
    regime.toDiscipline.Covers checker.nextWidth checker.catalog :=
  regime.covers kept.known

private theorem Checker.KeepsTo.later (kept : checker.KeepsTo regime origin)
    (conforms : next.Conforms regime.toDiscipline origin) (proceeds : checker.Proceeds next) :
    next.KeepsTo regime origin := by
  refine ⟨conforms, ?_, ?_⟩
  · rw [proceeds.catalog]
    exact kept.closed
  · rw [proceeds.catalog]
    exact regime.known_mono proceeds.nextWidth kept.known

/-- A change of the type store that keeps to the discipline. -/
theorem Checker.KeepsTo.storing {types : TypeStore} (kept : checker.KeepsTo regime origin)
    (conforms : TypeStore.Conforms origin (regime.width checker.nextWidth) types) :
    Checker.KeepsTo regime origin { checker with types := types } :=
  kept.later ⟨kept.conforms.stem, kept.conforms.begun, conforms, kept.conforms.state.pending⟩
    ⟨le_rfl, rfl⟩

/-- A change of links and pending conditions that keeps to the discipline. -/
theorem Checker.KeepsTo.unifying {state : Unification} (kept : checker.KeepsTo regime origin)
    (conforms : state.Conforms origin (regime.width checker.nextWidth)
      (regime.condition checker.nextWidth)) :
    Checker.KeepsTo regime origin { checker with toUnification := state } :=
  kept.later ⟨kept.conforms.stem, kept.conforms.begun, conforms⟩ ⟨le_rfl, rfl⟩

private theorem Checker.Conforms.drained {discipline : Discipline}
    (conforms : checker.Conforms discipline origin) :
    checker.dropConstraints.Conforms discipline origin := by
  refine ⟨conforms.stem, conforms.begun, conforms.state.types, ?_⟩
  intro condition inside
  cases inside

/-- Without its pending conditions a state still keeps to the regime. -/
theorem Checker.KeepsTo.drained (kept : checker.KeepsTo regime origin) :
    checker.dropConstraints.KeepsTo regime origin :=
  kept.later kept.conforms.drained ⟨le_rfl, rfl⟩

/-- The standard that a regime sets for what is made since `origin`. -/
abbrev Regime.standard (regime : Regime) (origin : TypeStore) : Standard :=
  regime.toDiscipline.standard origin

/-- Calls find what the regime allows. -/
theorem Checker.KeepsTo.answers (kept : checker.KeepsTo regime origin) :
    (regime.standard origin).Answers checker :=
  kept.covers.answers kept.closed

namespace Stays

variable {step : CheckM α} {returns : α → Checker → Prop}

/-- A step that stays on the course of the regime and returns leaves a state that keeps to it. -/
theorem returned_keepsTo (stays : Stays (regime.standard origin).toCourse step checker returns)
    (kept : checker.KeepsTo regime origin) {value : α} (run : step checker = .ok value next) :
    next.KeepsTo regime origin ∧ checker.Proceeds next ∧ returns value next := by
  obtain ⟨conforms, proceeds, returned⟩ := stays.returned run
  exact ⟨kept.later conforms proceeds, proceeds, returned⟩

/-- A step that stays on the course of the regime leaves a state that keeps to it, whatever its
outcome. -/
theorem after_keepsTo (stays : Stays (regime.standard origin).toCourse step checker returns)
    (kept : checker.KeepsTo regime origin) : (finalState (step checker)).KeepsTo regime origin :=
  Ends.final (Checker.KeepsTo regime origin) stays
    (fun _ _ ended => kept.later ended.1 ended.2.1) fun _ _ ended => kept.later ended.1 ended.2

end Stays

/-! ## Nodes -/

namespace Circuit.Node

variable {node : Node} {inputs outputs : List Typed.Wire} {body : Typed.Block}

/-- The body of the node was checked, and what is left to do keeps to the regime. -/
structure Finishable (regime : Regime) (origin : TypeStore) (node : Node)
    (inputs outputs : List Typed.Wire) (body : Typed.Block) (checker : Checker) : Prop where
  keeps : node.KeepsTo regime
  wellFormed : checker.types.WellFormed
  bodyOver : body.Over checker.types
  inputsWired : List.Forall₂ (Port.WiredAs checker.types) node.inputs inputs
  outputsWired : List.Forall₂ (Port.WiredAs checker.types) node.outputs outputs
  wires : ∀ wire ∈ inputs ++ outputs, wire.ty.Conforms origin (regime.width checker.nextWidth)
  body : body.Conforms origin (regime.width checker.nextWidth)

/-- Introducing a node keeps to the regime, and so do the types of its ports. -/
theorem introduce_keepsTo (keeps : node.KeepsTo regime) (wellFormed : checker.types.WellFormed)
    (kept : checker.KeepsTo regime origin) :
    Ends node.introduce checker (fun ports next => next.KeepsTo regime origin ∧
      ∀ wire ∈ ports.1 ++ ports.2, wire.ty.Conforms origin (regime.width next.nextWidth))
      Never := by
  obtain ⟨⟨inputs, outputs⟩, _, run, types, rfl, _⟩ := (node.introduce_ends wellFormed).exists_ok
  obtain ⟨conforms, wires⟩ := introduce_conforms run keeps.ports kept.conforms
  apply Ends.of_ok run
  refine ⟨⟨conforms, node.callable_closed kept.closed, ?_⟩, wires⟩
  exact keeps.callable kept.known

/-- The check of the body keeps to the regime, and what it returns can be finished in the regime. -/
theorem checkBody_keepsTo (keeps : node.KeepsTo regime) (wellFormed : checker.types.WellFormed)
    (kept : checker.KeepsTo regime origin)
    (run : node.introduce checker = .ok (inputs, outputs) next) :
    Ends ((portEnv inputs outputs).checkBlock node.body) next
      (fun body last => last.KeepsTo regime origin ∧
        node.Finishable regime origin inputs outputs body last)
      (fun _ last => last.KeepsTo regime origin) := by
  obtain ⟨inside, wires⟩ := (introduce_keepsTo keeps wellFormed kept).returned run
  obtain ⟨types, rfl, introduced⟩ := (node.introduce_ends wellFormed).returned run
  have stays := Discipline.checkBlock_stays keeps.body inside.closed inside.covers inside.conforms
    (Standard.scope_portEnv wires)
  apply (Ends.and stays (introduced.body_checks kept.closed)).imp
  · intro body last ⟨⟨conforms, proceeds, bodyConforms⟩, bodyWellFormed, grows, accepts⟩
    exact ⟨inside.later conforms proceeds, keeps, bodyWellFormed, accepts.owned,
      introduced.inputsWired.imp fun _ _ wired => wired.later grows.types,
      introduced.outputsWired.imp fun _ _ wired => wired.later grows.types,
      fun wire member => (wires wire member).later proceeds, bodyConforms⟩
  · intro _ last ⟨⟨conforms, proceeds⟩, _⟩
    exact inside.later conforms proceeds

/-- Solving takes out the pending conditions, whether they contradict each other or not. -/
theorem solvePending_final (node : Node) (checker : Checker) :
    finalState (node.solvePending checker) = checker.dropConstraints := by
  have drained : drain checker = .ok checker.constraints.pending checker.dropConstraints := rfl
  rw [solvePending, bind_of_ok drained]
  cases Static.solve node.paramNames checker.constraints.pending with
  | ok solved => rfl
  | error contradiction => rfl

/-- Concluding a node keeps to the regime, whether its conditions can be met or not. -/
theorem conclude_keepsTo (finishable : node.Finishable regime origin inputs outputs body checker)
    (kept : checker.KeepsTo regime origin) :
    (finalState (node.conclude inputs outputs body checker)).KeepsTo regime origin := by
  have stays := conclude_stays (regime.kept_outer origin) (regime.settles_outer origin node)
    kept.conforms finishable.wires finishable.body
  have ends := node.conclude_ends finishable.wellFormed finishable.bodyOver finishable.inputsWired
    finishable.outputsWired
  apply (Ends.and stays ends).final
  · intro typed next ⟨⟨conforms, _, _⟩, concluded⟩
    refine ⟨conforms, ?_, ?_⟩
    · rw [concluded.catalog]
      apply kept.closed.register
      rw [concluded.signature]
      exact node.provisional_closed
    · rw [concluded.catalog, concluded.nextWidth, concluded.signature]
      exact finishable.keeps.final kept.known kept.conforms.state.pending concluded.solved
  · intro stop next ⟨⟨conforms, counted⟩, contradicts⟩
    exact kept.later conforms ⟨counted, contradicts.catalog⟩

/-- Whether it is accepted or not, a node that keeps to the regime leaves the state so. -/
theorem checkDefinition_keepsTo (keeps : node.KeepsTo regime)
    (wellFormed : checker.types.WellFormed) (kept : checker.KeepsTo regime origin) :
    (finalState (node.checkDefinition checker)).KeepsTo regime origin := by
  obtain ⟨⟨inputs, outputs⟩, middle, run, _⟩ :=
    (introduce_keepsTo keeps wellFormed kept).exists_ok
  have bodyEnds := checkBody_keepsTo keeps wellFormed kept run
  rw [checkDefinition_eq, bind_of_ok run]
  cases bodyRun : (portEnv inputs outputs).checkBlock node.body middle with
  | ok body last =>
      obtain ⟨bodyKept, finishable⟩ := bodyEnds.returned bodyRun
      rw [bind_of_ok bodyRun]
      exact conclude_keepsTo finishable bodyKept
  | error stop last =>
      rw [bind_of_error bodyRun]
      exact bodyEnds.failed bodyRun

/-- The check of a node keeps to the regime and keeps the store well formed, whatever its
outcome. -/
theorem check_keepsTo (keeps : node.KeepsTo regime) :
    Preserves (fun checker => checker.KeepsTo regime origin ∧ checker.types.WellFormed) node.check
      fun _ => True := by
  intro checker ⟨kept, wellFormed⟩
  have after := checkDefinition_keepsTo keeps wellFormed kept
  have ends := node.checkDefinition_ends wellFormed kept.closed
  cases run : node.checkDefinition checker with
  | ok typed next =>
      rw [run] at after
      apply Ends.of_ok (by rw [check, run])
      exact ⟨⟨after, (ends.returned run).ready.types⟩, trivial⟩
  | error stop next =>
      rw [run] at after
      have refused := ends.failed run
      obtain ⟨rejection, rfl⟩ := refused.rejected
      have drained := after.drained
      apply Ends.of_error (by rw [check, run])
      exact ⟨⟨⟨drained.conforms.stem, drained.conforms.begun, drained.conforms.state⟩,
        drained.closed, drained.known⟩, refused.types⟩

end Circuit.Node

end CircuitWidths
