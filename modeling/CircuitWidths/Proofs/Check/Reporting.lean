import CircuitWidths.Proofs.Check.Erasure
import CircuitWidths.Proofs.Check.Standards
import CircuitWidths.Proofs.Check.TrivialEquations
import CircuitWidths.Proofs.Static.SolvedForm

/-!
# Every program ends with typed nodes or with one diagnostic

A program that is accepted gets one typed node for each of its nodes and reports nothing.  A program
that is not accepted reports one diagnostic, that of the first node that is rejected
(`Circuit.ReportsOnce`).  There is no other outcome.

Two lists are gone through together in two places, where arguments meet the types that are expected
of them and where the members of two products are made equal.  It is a fault if one list ends before
the other.  That does not happen in any state, since the lengths are compared before
(`Env.infer_even`, `Unification.unifyWithin_even`).
-/

namespace CircuitWidths

open CheckM Circuit

/-! ## Lists that are gone through together -/

namespace Unification

/-- No list ends before another that it is gone through with. -/
abbrev even : Course UnifyError Unification := .avoiding (.fault .unevenLists)

variable {state : Unification} {α : Type}

private theorem onTypes_even (step : StoreM α) : Stays even
    (onTypes step) state fun _ _ => True := by
  cases run : step state.types with
  | ok value types => exact .of_ok (by rw [onTypes, run]) ⟨trivial, trivial, trivial⟩
  | error fault types => exact .of_error (by rw [onTypes, run]) (by simp)

private theorem bindVar_even (id : TyVar) (ty : Ty) : Stays even
    (bindVar id ty) state fun _ _ => True := by
  refine .bind (onTypes_even (TypeStore.occurs id ty)) fun found _ _ _ _ => ?_
  cases found with
  | true => exact .throw (by simp)
  | false => exact onTypes_even (TypeStore.assign id ty)

/-- Products of different lengths are refused before their members are gone through. -/
private theorem keeps_even : Keeps even fun _ => True where
  members := fun _ _ _ => trivial
  refuses := fun _ other => other
  representative := fun _ _ => onTypes_even _
  bindVar := fun _ _ _ => bindVar_even _ _
  equate := fun _ _ _ => .of_ok rfl ⟨trivial, trivial, trivial⟩
  equateOne := fun _ _ => .of_ok rfl ⟨trivial, trivial, trivial⟩

/-- In every state, whatever the types are, unification goes only through lists of one length. -/
theorem unifyWithin_even (limit : Nat) (found expected : Ty) :
    Stays even (unifyWithin limit found expected) state fun _ _ => True :=
  keeps_even.unifyWithin_stays limit trivial trivial trivial

end Unification

/-- Everything may be found, and no list ends before another that it is gone through with. -/
abbrev Standard.even : Standard := .permissive (.avoiding (.fault .unevenLists))

namespace CheckM

variable {checker : Checker}

private theorem resolve_even (ty : Ty) :
    Stays Standard.even.toCourse (onTypes (TypeStore.resolve ty)) checker fun _ _ => True := by
  cases run : TypeStore.resolve ty checker.types with
  | ok resolved types => exact .of_ok (by rw [onTypes, run]) ⟨trivial, trivial, trivial⟩
  | error fault types => exact .of_error (by rw [onTypes, run]) (by simp)

private theorem unifyAt_even (span : Source.Span) (found expected : Ty) :
    Stays Standard.even.toCourse (unifyAt span found expected) checker fun _ _ => True := by
  have tried : Stays Standard.even.toCourse (tryUnify found expected) checker
      fun outcome _ => outcome ≠ .error (.fault .unevenLists) := by
    refine tryUnify_ends (Ends.imp (Unification.unifyWithin_even _ found expected) ?_ ?_)
    · exact fun _ _ _ => ⟨trivial, trivial, by simp⟩
    · exact fun error _ other => ⟨trivial, trivial, fun same => other (Except.error.inj same)⟩
  refine .bind tried fun outcome _ _ _ other => ?_
  cases outcome with
  | ok => exact .pure trivial trivial
  | error error =>
      cases error with
      | mismatch =>
          refine .bind (resolve_even found) fun _ _ _ _ _ => ?_
          refine .bind (resolve_even expected) fun _ _ _ _ _ => ?_
          exact .throw (by simp)
      | resultArity foundCount expectedCount => exact .throw (by simp)
      | fault fault =>
          refine .throw fun same => other ?_
          rw [Stop.fault.inj same]

end CheckM

private theorem Standard.kept_even : Standard.even.Kept :=
  kept_permissive (fun _ => by simp) (fun _ => .of_ok rfl ⟨trivial, trivial, trivial⟩)
    (fun ty _ => resolve_even ty) (fun _ _ _ _ => unifyAt_even _ _ _)
    fun _ _ => .of_ok rfl ⟨trivial, trivial, trivial⟩

/-- In every state, whatever is in scope, a wrong number of arguments is refused before they are gone
through. -/
theorem Env.infer_even (env : Env) (expr : Circuit.Expr) (checker : Checker) :
    Stays Standard.even.toCourse (env.infer expr) checker fun _ _ => True := by
  have generates : Standard.even.Generates :=
    fun _ _ => .of_ok rfl ⟨trivial, trivial, fun _ _ => trivial⟩
  exact (Env.infer_stays Standard.kept_even generates (fun _ _ _ _ => trivial) trivial
    (Standard.answers_permissive checker) fun _ _ => trivial).imp fun _ _ _ _ _ => trivial

/-! ## Diagnostics that can be finished -/

/-- The draft of a rejection always has a remark. -/
theorem Rejection.draft_finish (rejection : Rejection) (node : Ident) :
    (rejection.draft node).finish = .ok (rejection.toDiagnostic node) :=
  dif_pos (rejection.draft_remarked node)

/-! ## Programs -/

namespace Circuit

variable {settings : CheckSettings} {nodes : List Node} {typeds : List Typed.Node}
  {checker next final : Checker}

/-- The ways in which the check of a program ends: with a typed form of every node, in order, and
nothing reported, or with the diagnostic of the first rejected node as the only one reported. -/
inductive ReportsOnce (settings : CheckSettings) (nodes : List Node) :
    EStateM.Result NodeError Checker (List Typed.Node) → Prop
  | accepted {typeds : List Typed.Node} {final : Checker}
      (typed : List.Forall₂ Node.TypedAs nodes typeds) (silent : final.reported = []) :
      ReportsOnce settings nodes (.ok typeds final)
  | rejected {before after : List Node} {failing : Node} {typeds : List Typed.Node}
      {middle stopped final : Checker} {rejection : Rejection} {diagnostic : Diagnostic}
      (split : nodes = before ++ failing :: after)
      (earlier : checkProgram settings before = .ok typeds middle)
      (refused : failing.checkDefinition middle = .error (.rejected rejection) stopped)
      (finished : (rejection.draft failing.id).finish = .ok diagnostic)
      (once : final.reported = [diagnostic]) :
      ReportsOnce settings nodes (.error .reported final)

/-- Accepted nodes have their typed forms, in order. -/
theorem checkNodes_typedAs (ready : checker.Ready)
    (accepted : checkNodes nodes checker = .ok typeds next) :
    next.Ready ∧ List.Forall₂ Node.TypedAs nodes typeds := by
  have each : ∀ node ∈ nodes, ∀ checker, checker.Ready → Ends node.check checker
      (fun typed next => next.Ready ∧ node.TypedAs typed) (fun _ _ => True) := by
    intro node _ checker ready
    apply Ends.of_returned
    intro typed next run
    exact ⟨((node.check_ends ready).returned run).ready, node.typedAs_of_check ready run⟩
  exact (Ends.mapM each checker ready).returned accepted

/-- The state that accepted nodes leave behind mirrors itself; so nothing has been reported. -/
theorem checkProgram_mirrors_self (accepted : checkProgram settings nodes = .ok typeds final) :
    final.Mirrors Mirror.same final := by
  have inStep := checkNodes_mirrored Mirror.pairing_solves nodes
    (fun node _ => Mirror.same_readsNode node)
    (Mirror.start_same settings.widthStem settings.keepTrivial settings.keepTrivial)
  have run : checkNodes nodes (.start settings) = .ok typeds final := accepted
  rw [run] at inStep
  cases inStep with
  | returned related => exact related.1

/-- A node that is not accepted is rejected, and its diagnostic is the first to be reported. -/
theorem Node.exists_rejection_of_check {node : Node} {error : NodeError} (ready : checker.Ready)
    (mirrors : checker.Mirrors Mirror.same checker)
    (failed : node.check checker = .error error next) :
    error = .reported ∧ ∃ rejection stopped,
      node.checkDefinition checker = .error (.rejected rejection) stopped ∧
        next.reported = [rejection.toDiagnostic node.id] := by
  have defined :=
    checkDefinition_mirrored Mirror.pairing_solves (Mirror.same_readsNode node) mirrors
  have ends := node.checkDefinition_ends ready.types ready.catalog
  unfold check at failed
  cases outcome : node.checkDefinition checker with
  | ok typed last =>
      rw [outcome] at failed
      cases failed
  | error stop last =>
      obtain ⟨rejection, rfl⟩ := (ends.failed outcome).rejected
      rw [outcome] at failed defined
      cases failed
      cases defined with
      | failed stopped =>
          have silent : last.reported = [] := stopped.1.reported
          exact ⟨rfl, rejection, last, rfl, congrArg (· ++ [rejection.toDiagnostic node.id]) silent⟩

/-- The check of every program ends in one of the two ways. -/
theorem reportsOnce_checkProgram (settings : CheckSettings) (nodes : List Node) :
    ReportsOnce settings nodes (checkProgram settings nodes) := by
  have ready := Checker.start_ready settings
  cases run : checkProgram settings nodes with
  | ok typeds final =>
      exact .accepted (checkNodes_typedAs ready run).2 (checkProgram_mirrors_self run).reported
  | error error final =>
      obtain ⟨before, failing, after, typeds, middle, rfl, earlier, failed⟩ :=
        exists_of_mapM_error run
      obtain ⟨middleReady, _⟩ := checkNodes_typedAs ready earlier
      obtain ⟨rfl, rejection, stopped, refused, once⟩ :=
        failing.exists_rejection_of_check middleReady (checkProgram_mirrors_self earlier) failed
      exact .rejected rfl earlier refused (rejection.draft_finish failing.id) once

/-- **Checking never goes wrong.**  Every program ends with a typed form of each node and nothing
reported, or with a single diagnostic, that of the first rejected node; the type store is never
misused.  In no state, reached by a check or not, does an expression or a unification go through two
lists of which one ends before the other.  Solving comes to its end: it has no use for more rounds
than it is given. -/
theorem checkProgram_faultless (settings : CheckSettings) (nodes : List Node) :
    ReportsOnce settings nodes (checkProgram settings nodes) ∧
      (∀ (env : Env) expr checker next,
        env.infer expr checker ≠ .error (.fault .unevenLists) next) ∧
      (∀ limit found expected state next,
        Unification.unifyWithin limit found expected state ≠ .error (.fault .unevenLists) next) ∧
      ∀ params (conditions : List Static.Expr) extra,
        Static.eliminate params (conditions.length + extra) conditions =
          Static.eliminate params conditions.length conditions := by
  refine ⟨reportsOnce_checkProgram settings nodes, ?_, ?_, ?_⟩
  · exact fun env expr checker next uneven => (env.infer_even expr checker).failed uneven rfl
  · exact fun limit found expected state next uneven =>
      (Unification.unifyWithin_even limit found expected).failed uneven rfl
  · exact fun params _ extra => Static.eliminate_more_rounds params extra (Nat.le_refl _)

end Circuit

end CircuitWidths
