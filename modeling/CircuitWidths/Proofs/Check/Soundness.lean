import CircuitWidths.Proofs.Check.Ports
import CircuitWidths.Proofs.Static.Solving

/-!
# Accepted nodes obey the rules

Between the checks of nodes the state is ready for the next one (`Checker.Ready`), whether earlier
nodes were accepted or not.  A node that is accepted has a typed body that obeys the rules of
widths under every valuation that meets the conditions of its signature, up to the values of the
variables that were eliminated from them.
-/

namespace CircuitWidths

open CheckM Circuit TypeStore

variable {checker next : Checker} {catalog : Catalog}

/-- A closed signature may be made known in a closed catalog. -/
theorem Catalog.Closed.register (closed : catalog.Closed) {name : String} {signature : Signature}
    (signatureClosed : signature.Closed) : (catalog.register name signature).Closed :=
  Catalog.Each.register closed signatureClosed

/-- The signature of a node that is not checked yet has no type variables. -/
theorem Circuit.Node.provisional_closed (node : Node) : node.provisional.Closed := by
  intro ty inside
  simp only [provisional, ← List.map_append] at inside
  obtain ⟨port, _, rfl⟩ := List.mem_map.mp inside
  exact port.declared.toTy_flat.closed

namespace Checker

/-- What is true of the state between the checks of nodes. -/
structure Ready (checker : Checker) : Prop where
  types : checker.types.WellFormed
  catalog : checker.catalog.Closed
  drained : checker.constraints.pending = []

/-- The states that the checks of nodes, one after another, make from the first one. -/
inductive Reached : Checker → Prop
  | start (settings : CheckSettings) : Reached (.start settings)
  | check {checker : Checker} (reached : Reached checker) (node : Node) :
      Reached (finalState (node.check checker))

end Checker

/-- The circuit was rejected, in a state that is ready once its conditions are dropped. -/
structure Refused (stop : Stop) (next : Checker) : Prop where
  rejected : ∃ rejection, stop = .rejected rejection
  types : next.types.WellFormed
  catalog : next.catalog.Closed

namespace Circuit.Node

/-- The node was accepted: its conditions were solved, and its typed body obeys the rules under
every model that meets them. -/
structure Accepted (node : Node) (checker : Checker) (typed : Typed.Node) (next : Checker) :
    Prop where
  ready : next.Ready
  solved : ∃ pending, Static.solve node.paramNames pending = .ok typed.signature.constraints ∧
    ∀ model : Model, model.Respects next.types → model.Meets pending →
      node.body.Elaborates model (node.callable checker.catalog) node.portScope typed.body

/-- A node may be made known to its own body in a closed catalog. -/
theorem callable_closed (node : Node) {catalog : Catalog} (closed : catalog.Closed) :
    (node.callable catalog).Closed :=
  closed.register node.provisional_closed

section

variable {node : Node} {inputs outputs : List Typed.Wire} {types : TypeStore}

/-- The body of a node that was introduced is checked by the rules. -/
theorem Introduced.body_checks (introduced : node.Introduced checker.types inputs outputs types)
    (closed : checker.catalog.Closed) :
    Checks ((portEnv inputs outputs).checkBlock node.body)
      { checker with types := types, catalog := node.callable checker.catalog }
      (Env.Accepts node.portScope (node.callable checker.catalog) node.body) :=
  Env.checkBlock_checks (node.callable_closed closed) node.body introduced.wellFormed rfl
    (portEnv_declares introduced.inputsWired introduced.outputsWired)

/-- After any check of its body, an introduced node can be concluded. -/
theorem Introduced.concludes {store : TypeStore} {body : Typed.Block}
    (introduced : node.Introduced store inputs outputs types)
    (wellFormed : checker.types.WellFormed) (bodyOver : body.Over checker.types)
    (precedes : types.Precedes checker.types) :
    Ends (node.conclude inputs outputs body) checker (node.Concluded body checker)
      (node.Contradicts checker) :=
  node.conclude_ends wellFormed bodyOver
    (introduced.inputsWired.imp fun _ _ wired => wired.later precedes)
    (introduced.outputsWired.imp fun _ _ wired => wired.later precedes)

end

/-- The check of a definition accepts the node or refuses it; it never goes wrong. -/
theorem checkDefinition_ends (node : Node) (wellFormed : checker.types.WellFormed)
    (closed : checker.catalog.Closed) :
    Ends node.checkDefinition checker (node.Accepted checker) Refused := by
  have callableClosed := node.callable_closed closed
  rw [checkDefinition_eq]
  refine .bind ((node.introduce_ends wellFormed).never fun _ _ introduced => introduced) ?_
  intro ports started begun
  obtain ⟨inputs, outputs⟩ := ports
  obtain ⟨types, rfl, introduced⟩ := begun
  refine .bind (Ends.imp (introduced.body_checks closed) (fun _ _ checked => checked) fun _ _ rejects =>
    ⟨rejects.rejected, rejects.wellFormed, rejects.catalog ▸ callableClosed⟩) ?_
  intro body checked bodyChecked
  obtain ⟨bodyWellFormed, grows, accepts⟩ := bodyChecked
  refine (introduced.concludes bodyWellFormed accepts.owned grows.types).imp ?_ ?_
  · intro typed next concluded
    have signatureClosed : typed.signature.Closed := by
      rw [concluded.signature]
      exact node.provisional_closed
    have catalogClosed : next.catalog.Closed := by
      rw [concluded.catalog, grows.catalog]
      exact callableClosed.register signatureClosed
    refine ⟨⟨concluded.types.wellFormed bodyWellFormed, catalogClosed, concluded.drained⟩,
      checked.constraints.pending, concluded.solved, fun model respects met => ?_⟩
    have respectsBody := concluded.types.respects_iff.mp respects
    exact concluded.refined model respectsBody (accepts.elaborates model ⟨respectsBody, met⟩)
  · intro stop next contradicts
    obtain ⟨contradiction, _, stopped⟩ := contradicts.solved
    refine ⟨⟨_, stopped⟩, contradicts.types.wellFormed bodyWellFormed, ?_⟩
    rw [contradicts.catalog, grows.catalog]
    exact callableClosed

/-- A node is accepted, or its rejection is reported. -/
theorem check_ends (node : Node) (ready : checker.Ready) :
    Ends node.check checker (node.Accepted checker)
      (fun error next => error = .reported ∧ next.Ready) := by
  have ends := node.checkDefinition_ends ready.types ready.catalog
  cases outcome : node.checkDefinition checker with
  | ok typed next =>
      exact .of_ok (by rw [check, outcome]) (ends.returned outcome)
  | error stop next =>
      have refused := ends.failed outcome
      obtain ⟨rejection, rfl⟩ := refused.rejected
      have run : node.check checker = .error .reported
          (next.dropConstraints.report (rejection.toDiagnostic node.id)) := by rw [check, outcome]
      exact .of_error run ⟨rfl, refused.types, refused.catalog, rfl⟩

end Circuit.Node

namespace Checker

/-- The state at the start is ready for any node. -/
theorem start_ready (settings : CheckSettings) : (start settings).Ready where
  types := empty_wellFormed 0
  catalog := by
    intro name signature known
    cases known
  drained := rfl

/-- Every state that checking reaches is ready for any node. -/
theorem Reached.ready (reached : checker.Reached) : checker.Ready := by
  induction reached with
  | start settings => exact start_ready settings
  | check _ node ih =>
      exact (node.check_ends ih).final Ready (fun _ _ accepted => accepted.ready)
        fun _ _ reported => reported.2

end Checker

namespace Circuit.Node

/-- **Accepted nodes obey the rules.**  Take any valuation that meets the conditions of the
signature of an accepted node.  It can be changed at variables that are neither parameters nor in
these conditions so that, with ground types for the type variables, every part of the typed body
obeys its rule.  So the body as it is written is well typed there. -/
theorem check_sound {checker next : Checker} {node : Node} {typed : Typed.Node}
    (reached : checker.Reached) (accepted : node.check checker = .ok typed next)
    (reading : Static.Reading) (values : Static.Valuation)
    (met : Static.AllHold reading values typed.signature.constraints) :
    ∃ (changed : Static.Valuation) (grounds : TyVar → GroundTy),
      (∀ name, name ∈ node.paramNames ∨ Static.Mentioned name typed.signature.constraints →
        changed name = values name) ∧
      (⟨reading, changed, grounds⟩ : Model).Respects next.types ∧
      node.body.Elaborates ⟨reading, changed, grounds⟩ (node.callable checker.catalog)
        node.portScope typed.body ∧
      node.WellTyped reading changed checker.catalog := by
  obtain ⟨ready, pending, solved, obeys⟩ := (node.check_ends reached.ready).returned accepted
  obtain ⟨changed, metBefore, kept⟩ := (Static.solve_reduces solved).restores values met
  obtain ⟨grounds, respects, _⟩ :=
    ready.types.exists_respects ⟨reading, changed, fun _ => .unit⟩
  have elaborates := obeys ⟨reading, changed, grounds⟩ respects metBefore
  exact ⟨changed, grounds, kept, respects, elaborates, elaborates.wellTyped⟩

/-- Moves the first wire of a bus to its end.  The widths of both sides of the concatenation are
generated, and eliminated again when the conditions are solved. -/
def rotate : Node :=
  let here : Source.Span := ⟨0, 0, 0⟩
  let bus : Expr := .wire here ⟨"bus", here⟩
  { span := here
    id := ⟨"rotate", here⟩
    params := [⟨"n", here⟩]
    inputs := [⟨⟨"bus", here⟩, here, .bits (.var "n")⟩]
    outputs := [⟨⟨"turned", here⟩, here, .bits (.var "n")⟩]
    body := .system here [⟨⟨"rest", here⟩, none⟩]
      [⟨here, .single ⟨"rest", here⟩, .apply here (.slice (.int 2) (.var "n")) [bus]⟩,
        ⟨here, .single ⟨"turned", here⟩, .apply here .concat
          [.wire here ⟨"rest", here⟩, .apply here (.select (.int 1)) [bus]]⟩] }

/-- Of the conditions of `rotate` two are left, which a width of four meets. -/
theorem check_sound_rotate :
    let reading : Static.Reading := ⟨fun _ => 0, fun _ _ => 0⟩
    ∃ typed next, rotate.check (.start {}) = .ok typed next ∧
      Static.AllHold reading (fun _ => 4) typed.signature.constraints ∧
      ∃ (changed : Static.Valuation) (grounds : TyVar → GroundTy),
        (∀ name, name ∈ rotate.paramNames ∨ Static.Mentioned name typed.signature.constraints →
          changed name = 4) ∧
        (⟨reading, changed, grounds⟩ : Model).Respects next.types ∧
        rotate.body.Elaborates ⟨reading, changed, grounds⟩ (rotate.callable .empty)
          rotate.portScope typed.body ∧
        rotate.WellTyped reading changed .empty := by
  intro reading
  have residual : (match rotate.check (.start {}) with
      | .ok typed _ => some typed.signature.constraints
      | .error _ _ => none) =
      some [.binary .le (.int 1) (.var "n"), .binary .eq (.binary .add (.binary .add
        (.binary .sub (.var "n") (.int 2)) (.int 1)) (.int 1)) (.var "n")] := by
    decide +kernel
  cases run : rotate.check (.start {}) with
  | error error next =>
      rw [run] at residual
      cases residual
  | ok typed next =>
      rw [run] at residual
      have met : Static.AllHold reading (fun _ => 4) typed.signature.constraints := by
        rw [Option.some.inj residual]
        simp [Static.Expr.value, Static.Op.value]
      exact ⟨typed, next, rfl, met, check_sound (.start {}) run reading (fun _ => 4) met⟩

end Circuit.Node

end CircuitWidths
