import CircuitWidths.Proofs.Check.Programs

/-!
# What is registered about nodes

A node is registered with its ports before its body is checked, and again with its conditions when
it is accepted.  If it is rejected in between, the first registration stays.  So after any sequence
of checks a name stands for the newest node of this name that was checked at all
(`instantiate_newest`).
-/

namespace CircuitWidths

open CheckM Circuit

/-- The signature with its parameters replaced by the arguments, if there are as many of them. -/
def Signature.specialize (signature : Signature) (args : List Static.Expr) :
    Except InstantiationError Signature :=
  if args.length = signature.params.length then
    .ok (signature.substitute (.ofList (signature.params.zip args)))
  else
    .error (.paramsArity args.length signature.params.length)

namespace Catalog

variable {catalog : Catalog} {name : String}

private theorem instantiate_of_known {signature : Signature}
    (known : catalog.get? name = some signature) (args : List Static.Expr) :
    catalog.instantiate name args = signature.specialize args := by
  rw [instantiate, known, Signature.specialize]

private theorem instantiate_eq_unbound_iff (args : List Static.Expr) :
    catalog.instantiate name args = .error .unboundNode ↔ catalog.get? name = none := by
  cases known : catalog.get? name with
  | none => simp [instantiate, known]
  | some signature =>
      rw [instantiate_of_known known, Signature.specialize]
      split
      · simp
      · simp

end Catalog

namespace Circuit.Node

variable {checker next : Checker}

/-- The signature that the check of a node leaves behind: its own if it was accepted, and otherwise
the one that its body was checked with. -/
def leaves (node : Node) : Option Typed.Node → Signature
  | some typed => typed.signature
  | none => node.provisional

private theorem checkDefinition_catalog (node : Node) (ready : checker.Ready) :
    Ends node.checkDefinition checker
      (fun typed next => next.catalog =
        (node.callable checker.catalog).register node.id.name typed.signature)
      (fun _ next => next.catalog = node.callable checker.catalog) := by
  rw [checkDefinition_eq]
  apply Ends.bind ((node.introduce_ends ready.types).never fun _ _ introduced => introduced)
  intro ports started begun
  obtain ⟨inputs, outputs⟩ := ports
  obtain ⟨types, rfl, introduced⟩ := begun
  apply Ends.andThen (introduced.body_checks ready.catalog)
  · intro stop next rejects
    exact rejects.catalog
  intro body checked bodyChecked
  obtain ⟨wellFormed, grows, accepts⟩ := bodyChecked
  apply (introduced.concludes wellFormed accepts.owned grows.types).imp
  · intro typed next concluded
    rw [concluded.catalog, grows.catalog]
  · intro stop next contradicts
    rw [contradicts.catalog, grows.catalog]

/-- The check of a node changes what is known under its own name only. -/
theorem check_known (node : Node) (ready : checker.Ready) (name : String) :
    (finalState (node.check checker)).catalog.get? name =
      if name = node.id.name then some (node.leaves (returned? (node.check checker)))
      else checker.catalog.get? name := by
  have ends := node.checkDefinition_catalog ready
  cases run : node.checkDefinition checker with
  | ok typed next =>
      have checked : node.check checker = .ok typed next := by rw [check, run]
      rw [checked, finalState, ends.returned run, Catalog.get?_register, callable,
        Catalog.get?_register]
      by_cases same : name = node.id.name
      · rw [if_pos same, if_pos same]
        rfl
      · rw [if_neg same, if_neg same, if_neg same]
  | error stop next =>
      obtain ⟨rejection, rfl⟩ :=
        ((node.checkDefinition_ends ready.types ready.catalog).failed run).rejected
      have checked : node.check checker = .error .reported
          (next.dropConstraints.report (rejection.toDiagnostic node.id)) := by rw [check, run]
      have known : next.catalog = node.callable checker.catalog := ends.failed run
      rw [checked, finalState, Checker.report, Checker.dropConstraints, known, callable,
        Catalog.get?_register]
      rfl

end Circuit.Node

namespace Checker

/-- The state after the nodes were checked one after another, accepted or not. -/
def afterEach (checker : Checker) (nodes : List Node) : Checker :=
  nodes.foldl (fun checker node => finalState (node.check checker)) checker

variable {checker : Checker} {nodes : List Node} {name : String}

/-- The first node is checked before the others. -/
theorem afterEach_cons (checker : Checker) (node : Node) (nodes : List Node) :
    checker.afterEach (node :: nodes) = (finalState (node.check checker)).afterEach nodes := rfl

private theorem afterEach_append (checker : Checker) (older newer : List Node) :
    checker.afterEach (older ++ newer) = (checker.afterEach older).afterEach newer :=
  List.foldl_append

/-- Checking nodes one after another reaches states that checking reaches. -/
theorem Reached.afterEach (reached : checker.Reached) (nodes : List Node) :
    (checker.afterEach nodes).Reached := by
  induction nodes generalizing checker with
  | nil => exact reached
  | cons node nodes ih => exact ih (reached.check node)

/-- The checks of nodes with other names do not change what is known under a name. -/
theorem get?_afterEach_of_ne (reached : checker.Reached)
    (others : ∀ node ∈ nodes, node.id.name ≠ name) :
    (checker.afterEach nodes).catalog.get? name = checker.catalog.get? name := by
  induction nodes generalizing checker with
  | nil => rfl
  | cons node nodes ih =>
      obtain ⟨other, rest⟩ := List.forall_mem_cons.mp others
      rw [afterEach_cons, ih (reached.check node) rest, node.check_known reached.ready,
        if_neg other.symm]

/-- What is known was left behind by the newest check of a node of this name. -/
theorem get?_afterEach_newest (reached : checker.Reached) (older : List Node) (node : Node)
    (newer : List Node) (others : ∀ other ∈ newer, other.id.name ≠ node.id.name) :
    (checker.afterEach (older ++ node :: newer)).catalog.get? node.id.name =
      some (node.leaves (returned? (node.check (checker.afterEach older)))) := by
  have before := reached.afterEach older
  rw [afterEach_append, afterEach_cons, get?_afterEach_of_ne (before.check node) others,
    node.check_known before.ready, if_pos rfl]

/-- A name is known if it was known before or a node of this name was checked since. -/
theorem isSome_get?_afterEach (reached : checker.Reached) :
    ((checker.afterEach nodes).catalog.get? name).isSome ↔
      (checker.catalog.get? name).isSome ∨ ∃ node ∈ nodes, node.id.name = name := by
  induction nodes generalizing checker with
  | nil => simp [afterEach]
  | cons node nodes ih =>
      rw [afterEach_cons, ih (reached.check node), node.check_known reached.ready]
      by_cases same : name = node.id.name
      · simp [same]
      · simp [same, Ne.symm same]

end Checker

/-- **A name stands for the newest check.**  After any sequence of checks, accepted or not, a node is
unknown exactly if no node of this name was checked.  Otherwise what counts is the newest of them:
if it was accepted, its signature, and if it was rejected, the one with its declared ports and no
conditions.  A rejected node does not change what is known under other names. -/
theorem Circuit.instantiate_newest (settings : CheckSettings) (nodes : List Node) (name : String)
    (args : List Static.Expr) :
    let checker := (Checker.start settings).afterEach nodes
    (checker.catalog.instantiate name args = .error .unboundNode ↔
      ∀ node ∈ nodes, node.id.name ≠ name) ∧
    (∀ older node newer, nodes = older ++ node :: newer → node.id.name = name →
      (∀ other ∈ newer, other.id.name ≠ name) →
        checker.catalog.instantiate name args = (node.leaves
          (returned? (node.check ((Checker.start settings).afterEach older)))).specialize args) ∧
    ∀ node : Node, returned? (node.check checker) = none →
      (finalState (node.check checker)).catalog.instantiate name args =
        if name = node.id.name then node.provisional.specialize args
        else checker.catalog.instantiate name args := by
  intro checker
  have start : (Checker.start settings).Reached := .start settings
  refine ⟨?_, ?_, ?_⟩
  · rw [Catalog.instantiate_eq_unbound_iff, ← Option.not_isSome_iff_eq_none,
      Checker.isSome_get?_afterEach start]
    have unknown : (Checker.start settings).catalog.get? name = none := rfl
    simp [unknown]
  · intro older node newer split named others
    subst named
    apply Catalog.instantiate_of_known
    rw [← Checker.get?_afterEach_newest start older node newer others, ← split]
  · intro node rejected
    have after := node.check_known (start.afterEach nodes).ready name
    rw [rejected] at after
    by_cases same : name = node.id.name
    · rw [if_pos same] at after ⊢
      exact Catalog.instantiate_of_known after args
    · rw [if_neg same] at after ⊢
      unfold Catalog.instantiate
      rw [after]

namespace Circuit

/-- Passes a bus on. -/
def relay : Node :=
  let here : Source.Span := ⟨0, 0, 0⟩
  { span := here
    id := ⟨"relay", here⟩
    params := [⟨"n", here⟩]
    inputs := [⟨⟨"x", here⟩, here, .bits (.var "n")⟩]
    outputs := [⟨⟨"o", here⟩, here, .bits (.var "n")⟩]
    body := .system here [] [⟨here, .single ⟨"o", here⟩, .wire here ⟨"x", here⟩⟩] }

/-- Passes on a bus that it does not have. -/
def strayRelay : Node := { relay with inputs := [] }

/-- The newest node of the name is a rejected one, and its provisional signature is what is found. -/
theorem instantiate_newest_relay :
    ((Checker.start {}).afterEach [strayRelay, relay, strayRelay]).catalog.instantiate "relay"
      [.int 2] = strayRelay.provisional.specialize [.int 2] := by
  have rejected :
      returned? (strayRelay.check ((Checker.start {}).afterEach [strayRelay, relay])) = none := by
    decide +kernel
  obtain ⟨_, newest, _⟩ := instantiate_newest {} [strayRelay, relay, strayRelay] "relay" [.int 2]
  have left := newest [strayRelay, relay] strayRelay [] rfl rfl fun other inside => by cases inside
  rw [rejected] at left
  exact left

/-- A rejected node is known, and takes the place of an accepted one. -/
theorem strayRelay_known :
    returned? (strayRelay.check (.start {})) = none ∧
    ((Checker.start {}).afterEach [strayRelay]).catalog.instantiate "relay" [.int 2] =
      .ok ⟨[], [.bits (.int 2)], ["n"], []⟩ ∧
    ((Checker.start {}).afterEach [relay]).catalog.instantiate "relay" [.int 2] =
      .ok ⟨[.bits (.int 2)], [.bits (.int 2)], ["n"], []⟩ ∧
    returned? (strayRelay.check ((Checker.start {}).afterEach [relay])) = none ∧
    ((Checker.start {}).afterEach [relay, strayRelay]).catalog.instantiate "relay" [.int 2] =
      .ok ⟨[], [.bits (.int 2)], ["n"], []⟩ := by
  decide +kernel

end Circuit

end CircuitWidths
