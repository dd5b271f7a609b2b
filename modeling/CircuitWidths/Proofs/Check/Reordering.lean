import CircuitWidths.Proofs.Check.Completeness
import CircuitWidths.Proofs.Check.Numbering
import CircuitWidths.Proofs.Check.ShapedBodies
import CircuitWidths.Proofs.Check.Sharing

/-!
# The order of equations

The rules for shapes and for types ask something of every equation of a system, in whatever order.
A body is rejected before solving exactly if it is not well shaped, and the conditions of an accepted
node can be met exactly where the node is well typed.  So neither depends on the order in which
equations are written (`check_reordered`), as long as generated widths have new names.
-/

namespace CircuitWidths

open Circuit
open Static (Reading Valuation AllHold Meetable)

variable {checker next : Checker} {reading : Reading} {values : Valuation} {catalog : Catalog}

namespace Circuit

/-! ## Nodes with the same equations -/

/-- The bodies differ in the order of equations only. -/
inductive Block.Permuted : Block → Block → Prop
  | system {span : Source.Span} {locals : List Local} {equations others : List Equation}
      (permuted : equations.Perm others) :
      Permuted (.system span locals equations) (.system span locals others)
  | choice {span : Source.Span} {condition : Static.Expr}
      {onTrue onFalse otherTrue otherFalse : Block} (first : Permuted onTrue otherTrue)
      (second : Permuted onFalse otherFalse) :
      Permuted (.choice span condition onTrue onFalse) (.choice span condition otherTrue otherFalse)

namespace Block.Permuted

variable {block other : Block}

private theorem symm (permuted : block.Permuted other) : other.Permuted block := by
  induction permuted with
  | system permuted => exact .system permuted.symm
  | choice _ _ first second => exact .choice first second

private theorem wellShaped {scope : Bindings GroundTy} (permuted : block.Permuted other)
    (shaped : block.WellShaped catalog scope) : other.WellShaped catalog scope := by
  induction permuted with
  | system permuted =>
      cases shaped with
      | system shapes annotated shaped =>
          apply Block.WellShaped.system shapes annotated
          intro equation inside
          exact shaped equation (permuted.mem_iff.mpr inside)
  | choice _ _ first second =>
      cases shaped with
      | choice kind onTrue onFalse => exact .choice kind (first onTrue) (second onFalse)

private theorem wellTyped (permuted : block.Permuted other) : ∀ {scope : Bindings Ty},
    block.WellTyped reading values catalog scope → other.WellTyped reading values catalog scope := by
  induction permuted with
  | system permuted =>
      intro scope typed
      cases typed with
      | system tys annotated typed =>
          -- The same types will do: the rule asks something of every equation, in no order.
          apply Block.WellTyped.system tys annotated
          intro equation inside
          exact typed equation (permuted.mem_iff.mpr inside)
  | choice _ _ first second =>
      intro scope typed
      cases typed with
      | choice kind onTrue onFalse => exact .choice kind (first onTrue) (second onFalse)

private theorem statics_subset (permuted : block.Permuted other) :
    other.statics ⊆ block.statics := by
  induction permuted with
  | system permuted =>
      intro static inside
      rcases List.mem_append.mp inside with declared | written
      · exact List.mem_append_left _ declared
      · obtain ⟨equation, member, written⟩ := List.mem_flatMap.mp written
        apply List.mem_append_right
        exact List.mem_flatMap.mpr ⟨equation, permuted.mem_iff.mpr member, written⟩
  | choice _ _ first second =>
      apply List.cons_subset_cons
      intro static inside
      rcases List.mem_append.mp inside with onTrue | onFalse
      · exact List.mem_append_left _ (first onTrue)
      · exact List.mem_append_right _ (second onFalse)

end Block.Permuted

/-- The nodes differ in the order of equations only. -/
def Node.Permuted (node other : Node) : Prop :=
  ∃ body, node.body.Permuted body ∧ other = { node with body := body }

/-- The equations of every system from the last to the first. -/
def Block.reverse : Block → Block
  | .system span locals equations => .system span locals equations.reverse
  | .choice span condition onTrue onFalse => .choice span condition onTrue.reverse onFalse.reverse

/-- The node with its equations from the last to the first. -/
def Node.reverse (node : Node) : Node := { node with body := node.body.reverse }

private theorem Block.permuted_reverse (block : Block) : block.Permuted block.reverse := by
  induction block with
  | system span locals equations => exact .system (List.reverse_perm equations).symm
  | choice span condition onTrue onFalse first second => exact .choice first second

private theorem Node.permuted_reverse (node : Node) : node.Permuted node.reverse :=
  ⟨node.body.reverse, node.body.permuted_reverse, rfl⟩

end Circuit

/-! ## New names for generated widths -/

/-- The name is one of a width that is still to be generated. -/
def Checker.Ahead (checker : Checker) (name : String) : Prop :=
  ∃ index, checker.nextWidth ≤ index ∧ name = checker.settings.widthStem ++ index.repr

namespace Circuit.Node

variable {node other : Node} {typed : Typed.Node}

/-- Widths that are generated in the node get new names: none of these names is written in the node
or is a parameter of it, and none stands in a known signature except as a parameter. -/
structure NamesNewWidths (checker : Checker) (node : Node) : Prop where
  statics : ∀ static ∈ node.statics, static.Omits checker.Ahead
  params : ∀ name ∈ node.paramNames, ¬ checker.Ahead name
  known : checker.catalog.Omits checker.Ahead

private theorem Spares.namesNewWidths {settings : CheckSettings}
    (spares : node.Spares settings.widthStem) (session : checker.Session settings) :
    node.NamesNewWidths checker := by
  obtain ⟨named, below⟩ := session.numbers
  constructor
  · rintro static inside _ ⟨index, _, rfl⟩
    rw [named]
    exact spares.statics static inside index
  · rintro _ param ⟨index, _, rfl⟩
    rw [named] at param
    exact spares.params index param
  · rintro name signature known static inside _ ⟨index, above, rfl⟩ mentioned
    rw [named] at mentioned
    have old := (below name signature known).statics static inside index mentioned
    exact (Nat.not_lt_of_le above old).elim

/-! ## Conditions and rules -/

/-- Where the conditions of an accepted node are met, the node is well typed, for the same values of
the parameters. -/
theorem wellTyped_of_met (ready : checker.Ready) (accepted : node.check checker = .ok typed next)
    (met : AllHold reading values typed.signature.constraints) :
    ∃ changed : Valuation, (∀ name ∈ node.paramNames, changed name = values name) ∧
      node.WellTyped reading changed checker.catalog := by
  obtain ⟨changed, grounds, kept, elaborates⟩ :=
    ((node.check_ends ready).returned accepted).restores met
  exact ⟨changed, fun name param => kept name (.inl param), elaborates.wellTyped⟩

/-- Where the node is well typed, it is accepted and its conditions are met, for the same values of
the parameters. -/
theorem accepted_of_wellTyped (ready : checker.Ready) (new : node.NamesNewWidths checker)
    (typed : node.WellTyped reading values checker.catalog) :
    ∃ (typed : Typed.Node) (next : Checker) (extended : Valuation),
      node.check checker = .ok typed next ∧
      (∀ name ∈ node.paramNames, extended name = values name) ∧
      AllHold reading extended typed.signature.constraints := by
  have setAside : ∀ index, checker.nextWidth ≤ index →
      checker.Ahead (checker.settings.widthStem ++ index.repr) :=
    fun index above => ⟨index, above, rfl⟩
  obtain ⟨widths, extended, kept, ends⟩ :=
    checkDefinition_accepts ready setAside new.known new.statics typed
  obtain ⟨accepted, next, run, _, met⟩ := ends.exists_ok
  refine ⟨accepted, next, extended, by rw [check, run], ?_, met⟩
  intro name param
  apply kept
  intro index above _ same
  exact new.params name param ⟨index, above, same⟩

namespace Permuted

private theorem symm (permuted : node.Permuted other) : other.Permuted node := by
  obtain ⟨body, permuted, rfl⟩ := permuted
  exact ⟨node.body, permuted.symm, rfl⟩

private theorem paramNames (permuted : node.Permuted other) :
    other.paramNames = node.paramNames := by
  obtain ⟨body, _, rfl⟩ := permuted
  rfl

private theorem wellShaped (permuted : node.Permuted other) (shaped : node.WellShaped catalog) :
    other.WellShaped catalog := by
  obtain ⟨body, permuted, rfl⟩ := permuted
  exact permuted.wellShaped shaped

private theorem wellTyped (permuted : node.Permuted other)
    (typed : node.WellTyped reading values catalog) : other.WellTyped reading values catalog := by
  obtain ⟨body, permuted, rfl⟩ := permuted
  exact permuted.wellTyped typed

private theorem namesNewWidths (permuted : node.Permuted other)
    (new : node.NamesNewWidths checker) : other.NamesNewWidths checker := by
  obtain ⟨body, permuted, rfl⟩ := permuted
  refine ⟨?_, new.params, new.known⟩
  intro static inside
  apply new.statics
  rcases List.mem_append.mp inside with declared | written
  · exact List.mem_append_left _ declared
  · exact List.mem_append_right _ (permuted.statics_subset written)

/-- What meets the conditions of a node meets those of the reordered one, up to the values of other
variables than the parameters; so the reordered node is accepted. -/
theorem accepted (permuted : node.Permuted other) (ready : checker.Ready)
    (new : node.NamesNewWidths checker) (run : node.check checker = .ok typed next)
    (met : AllHold reading values typed.signature.constraints) :
    ∃ (typed : Typed.Node) (next : Checker) (extended : Valuation),
      other.check checker = .ok typed next ∧
      (∀ name ∈ node.paramNames, extended name = values name) ∧
      AllHold reading extended typed.signature.constraints := by
  obtain ⟨changed, kept, wellTyped⟩ := wellTyped_of_met ready run met
  obtain ⟨typed, next, extended, otherRun, same, met⟩ :=
    accepted_of_wellTyped ready (permuted.namesNewWidths new) (permuted.wellTyped wellTyped)
  refine ⟨typed, next, extended, otherRun, ?_, met⟩
  intro name param
  rw [same name (permuted.paramNames ▸ param), kept name param]

private theorem meetable {otherTyped : Typed.Node} {otherNext : Checker}
    (permuted : node.Permuted other) (ready : checker.Ready) (new : node.NamesNewWidths checker)
    (run : node.check checker = .ok typed next)
    (otherRun : other.check checker = .ok otherTyped otherNext)
    (met : Meetable reading node.paramNames values typed.signature.constraints) :
    Meetable reading node.paramNames values otherTyped.signature.constraints := by
  obtain ⟨extended, onParams, met⟩ := met
  obtain ⟨_, _, changed, sameRun, kept, met⟩ := permuted.accepted ready new run met
  rw [otherRun] at sameRun
  cases sameRun
  refine ⟨changed, ?_, met⟩
  intro name param
  rw [kept name param, onParams name param]

end Permuted

/-- **The order of equations does not matter.**  Take two nodes that differ in the order of equations
only.  If the body of one is rejected, so is the body of the other.  If both nodes are accepted, and
generated widths get new names, their conditions can be met for the same values of the parameters.
If one is accepted and the conditions of the other contradict each other, no values meet the
conditions of the first. -/
theorem check_reordered {checker : Checker} {node other : Node} (reached : checker.Reached)
    (permuted : node.Permuted other) :
    (node.FailsEarly checker ↔ other.FailsEarly checker) ∧
    (node.NamesNewWidths checker →
      (∀ typed next otherTyped otherNext, node.check checker = .ok typed next →
        other.check checker = .ok otherTyped otherNext → ∀ reading values,
          Meetable reading node.paramNames values typed.signature.constraints ↔
            Meetable reading node.paramNames values otherTyped.signature.constraints) ∧
      ∀ typed next, node.check checker = .ok typed next → other.FailsSolving checker →
        ∀ reading values, ¬ AllHold reading values typed.signature.constraints) := by
  have ready := reached.ready
  refine ⟨?_, fun new => ⟨?_, ?_⟩⟩
  · rw [failsEarly_iff node ready, failsEarly_iff other ready]
    exact not_congr ⟨permuted.wellShaped, permuted.symm.wellShaped⟩
  · intro typed next otherTyped otherNext run otherRun reading values
    constructor
    · exact permuted.meetable ready new run otherRun
    · intro met
      rw [← permuted.paramNames] at met ⊢
      exact permuted.symm.meetable ready (permuted.namesNewWidths new) otherRun run met
  · rintro typed next run ⟨span, condition, last, stopped⟩ reading values met
    -- Values that meet the conditions would make the other node accepted as well.
    obtain ⟨_, _, _, otherRun, _⟩ := permuted.accepted ready new run met
    rw [check, stopped] at otherRun
    cases otherRun

/-! ## Reversed nodes -/

/-- How the check of the node ends at the beginning of a session: with its conditions, or not. -/
def verdict (node : Node) : Except Stop (List Static.Expr) :=
  match node.checkDefinition (.start {}) with
  | .ok typed _ => .ok typed.signature.constraints
  | .error stop _ => .error stop

private theorem exists_of_verdict_ok {conditions : List Static.Expr}
    (found : node.verdict = .ok conditions) :
    ∃ typed next, node.check (.start {}) = .ok typed next ∧
      typed.signature.constraints = conditions := by
  unfold verdict at found
  cases run : node.checkDefinition (.start {}) with
  | ok typed next =>
      rw [run] at found
      exact ⟨typed, next, by rw [check, run], Except.ok.inj found⟩
  | error stop next =>
      rw [run] at found
      cases found

private theorem exists_of_verdict_error {stop : Stop} (found : node.verdict = .error stop) :
    ∃ next, node.checkDefinition (.start {}) = .error stop next := by
  unfold verdict at found
  cases run : node.checkDefinition (.start {}) with
  | ok typed next =>
      rw [run] at found
      cases found
  | error other next =>
      rw [run] at found
      rw [Except.error.inj found]
      exact ⟨next, rfl⟩

/-- One wire for three buses.  The width of the first that is equated with it is compared with the
others. -/
def shared (first second third : Static.Expr) : Node :=
  let here : Source.Span := ⟨0, 0, 0⟩
  let equate (name : String) : Equation :=
    ⟨here, .single ⟨"wire", here⟩, .wire here ⟨name, here⟩⟩
  { span := here
    id := ⟨"shared", here⟩
    params := [⟨"k", here⟩, ⟨"m", here⟩, ⟨"n", here⟩]
    inputs := [⟨⟨"first", here⟩, here, .bits first⟩, ⟨⟨"second", here⟩, here, .bits second⟩,
      ⟨⟨"third", here⟩, here, .bits third⟩]
    outputs := []
    body := .system here [⟨⟨"wire", here⟩, none⟩] [equate "first", equate "second", equate "third"] }

/-- Three parameters for the widths give two different solved forms.  With two different numbers
among the widths, one order has conditions that nothing meets, and the other is rejected. -/
theorem check_reordered_shared :
    let free := shared (.var "k") (.var "m") (.var "n")
    let tight := shared (.var "n") (.int 3) (.int 4)
    (free.Permuted free.reverse ∧ free.NamesNewWidths (.start {}) ∧
      ∃ typed next otherTyped otherNext, free.check (.start {}) = .ok typed next ∧
        free.reverse.check (.start {}) = .ok otherTyped otherNext ∧
        typed.signature.constraints ≠ otherTyped.signature.constraints ∧ ∀ reading values,
          Meetable reading free.paramNames values typed.signature.constraints ↔
            Meetable reading free.paramNames values otherTyped.signature.constraints) ∧
    (tight.Permuted tight.reverse ∧ tight.NamesNewWidths (.start {}) ∧
      ∃ typed next, tight.check (.start {}) = .ok typed next ∧
        tight.reverse.FailsSolving (.start {}) ∧
        ∀ reading values, ¬ AllHold reading values typed.signature.constraints) := by
  intro free tight
  have apart : ∀ param ∈ ["k", "m", "n"],
      ({} : CheckSettings).widthStem.toList.isPrefixOf param.toList = false := by decide
  have new : ∀ first second third : Static.Expr, (∀ width ∈ [first, second, third], ∀ name,
      width.mentions name = true → name ∈ ["k", "m", "n"]) →
        (shared first second third).NamesNewWidths (.start {}) := by
    intro first second third overOwn
    have overOwn : (shared first second third).OverParams := overOwn
    have spares : (shared first second third).Spares ({} : CheckSettings).widthStem :=
      overOwn.spares apart
    exact spares.namesNewWidths .start
  have freeNew : free.NamesNewWidths (.start {}) :=
    new _ _ _ (by simp [Static.Expr.mentions])
  have tightNew : tight.NamesNewWidths (.start {}) :=
    new _ _ _ (by simp [Static.Expr.mentions])
  constructor
  · have verdict : free.verdict = .ok [.binary .eq (.var "m") (.var "k"),
        .binary .eq (.var "n") (.var "k")] := by decide +kernel
    have otherVerdict : free.reverse.verdict = .ok [.binary .eq (.var "m") (.var "n"),
        .binary .eq (.var "k") (.var "n")] := by decide +kernel
    obtain ⟨typed, next, run, conditions⟩ := exists_of_verdict_ok verdict
    obtain ⟨otherTyped, otherNext, otherRun, others⟩ := exists_of_verdict_ok otherVerdict
    refine ⟨free.permuted_reverse, freeNew, typed, next, otherTyped, otherNext, run, otherRun, ?_,
      ?_⟩
    · rw [conditions, others]
      decide
    · exact ((check_reordered (.start {}) free.permuted_reverse).2 freeNew).1 typed next otherTyped
        otherNext run otherRun
  · have verdict : tight.verdict = .ok [.binary .eq (.int 3) (.var "n"),
        .binary .eq (.int 4) (.var "n")] := by decide +kernel
    have otherVerdict : tight.reverse.verdict = .error (.rejected ⟨⟨0, 0, 0⟩,
        .contradiction (.binary .eq (.int 3) (.int 4))⟩) := by decide +kernel
    obtain ⟨typed, next, run, _⟩ := exists_of_verdict_ok verdict
    obtain ⟨last, stopped⟩ := exists_of_verdict_error otherVerdict
    have fails : tight.reverse.FailsSolving (.start {}) := ⟨_, _, last, stopped⟩
    exact ⟨tight.permuted_reverse, tightNew, typed, next, run, fails,
      ((check_reordered (.start {}) tight.permuted_reverse).2 tightNew).2 typed next run fails⟩

/-- One wire of each of two buses, with a parameter that is named as the first generated width. -/
def selections : Node :=
  let here : Source.Span := ⟨0, 0, 0⟩
  let select (target : String) (index : Int) (bus : String) : Equation :=
    ⟨here, .single ⟨target, here⟩, .apply here (.select (.int index)) [.wire here ⟨bus, here⟩]⟩
  { span := here
    id := ⟨"selections", here⟩
    params := [⟨"$w0", here⟩]
    inputs := [⟨⟨"x", here⟩, here, .bits (.int 5)⟩, ⟨⟨"y", here⟩, here, .bits (.int 7)⟩]
    outputs := [⟨⟨"a", here⟩, here, .bit⟩, ⟨⟨"b", here⟩, here, .bit⟩]
    body := .system here [] [select "a" 1 "x", select "b" 6 "y"] }

/-- Generated widths need new names: here the one of the equation that comes first is taken for the
parameter. -/
theorem selections_reordered :
    selections.Permuted selections.reverse ∧
    ∃ typed next otherTyped otherNext, selections.check (.start {}) = .ok typed next ∧
      selections.reverse.check (.start {}) = .ok otherTyped otherNext ∧
      ¬ ∀ reading values,
        Meetable reading selections.paramNames values typed.signature.constraints ↔
          Meetable reading selections.paramNames values otherTyped.signature.constraints := by
  have verdict : selections.verdict = .ok [.binary .eq (.int 5) (.var "$w0"),
      .binary .le (.int 1) (.var "$w0")] := by decide +kernel
  have otherVerdict : selections.reverse.verdict = .ok [.binary .eq (.int 7) (.var "$w0"),
      .binary .le (.int 6) (.var "$w0")] := by decide +kernel
  obtain ⟨typed, next, run, conditions⟩ := exists_of_verdict_ok verdict
  obtain ⟨otherTyped, otherNext, otherRun, others⟩ := exists_of_verdict_ok otherVerdict
  refine ⟨selections.permuted_reverse, typed, next, otherTyped, otherNext, run, otherRun, ?_⟩
  rw [conditions, others]
  intro same
  let reading : Reading := ⟨fun _ => 0, fun _ _ => 0⟩
  have met : Meetable reading selections.paramNames (fun _ => 5) [.binary .eq (.int 5) (.var "$w0"),
      .binary .le (.int 1) (.var "$w0")] :=
    ⟨fun _ => 5, fun _ _ => rfl, by simp [Static.Expr.value]⟩
  obtain ⟨extended, onParams, met⟩ := (same reading fun _ => 5).mp met
  have param : extended "$w0" = 5 := onParams "$w0" (by decide)
  have equal := met _ List.mem_cons_self
  simp [Static.Expr.Holds, Static.Expr.value, Static.Op.value, param] at equal

end Circuit.Node

end CircuitWidths
