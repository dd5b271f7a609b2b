import CircuitWidths.Proofs.Ty.Principal
import Mathlib.Logic.Relation

/-!
# Walks along links end

No variable of a type store can be reached from itself, whatever was done to the store before.  The
walks of the store are written with a limit, and a longer limit only matters to a walk that has
given up (`Outlasts`).  Since no walk over the variables of the store gives up at the limit that is
computed for it, no limit beyond that one changes anything: the limits only say why the walks end.
-/

namespace CircuitWidths

variable {ε σ α β : Type}

/-- Wherever the first step does not stop with `gaveUp`, the second one does the same. -/
def Outlasts (gaveUp : ε) (step longer : EStateM ε σ α) : Prop :=
  ∀ state, longer state = step state ∨ ∃ next, step state = .error gaveUp next

namespace Outlasts

variable {gaveUp : ε} {step longer : EStateM ε σ α} {rest longerRest : α → EStateM ε σ β}

private theorem refl (step : EStateM ε σ α) : Outlasts gaveUp step step := fun _ => .inl rfl

private theorem of_gaveUp : Outlasts gaveUp (throw gaveUp) longer := fun state => .inr ⟨state, rfl⟩

private theorem bind (first : Outlasts gaveUp step longer)
    (second : ∀ value, Outlasts gaveUp (rest value) (longerRest value)) :
    Outlasts gaveUp (step >>= rest) (longer >>= longerRest) := by
  intro state
  rcases first state with same | ⟨next, stopped⟩
  · cases run : step state with
    | ok value next =>
        rw [run] at same
        rw [bind_of_ok run, bind_of_ok same]
        exact second value next
    | error error next =>
        rw [run] at same
        exact .inl ((bind_of_error same).trans (bind_of_error run).symm)
  · exact .inr ⟨next, bind_of_error stopped⟩

private theorem mapM {each longerEach : α → EStateM ε σ β} {items : List α}
    (outlasts : ∀ item ∈ items, Outlasts gaveUp (each item) (longerEach item)) :
    Outlasts gaveUp (items.mapM each) (items.mapM longerEach) := by
  induction items with
  | nil => exact .refl _
  | cons item items ih =>
      obtain ⟨head, tail⟩ := List.forall_mem_cons.mp outlasts
      rw [List.mapM_cons, List.mapM_cons]
      exact .bind head fun _ => .bind (ih tail) fun _ => .refl _

private theorem anyM {each longerEach : α → EStateM ε σ Bool} {items : List α}
    (outlasts : ∀ item ∈ items, Outlasts gaveUp (each item) (longerEach item)) :
    Outlasts gaveUp (items.anyM each) (items.anyM longerEach) := by
  induction items with
  | nil => exact .refl _
  | cons item items ih =>
      obtain ⟨head, tail⟩ := List.forall_mem_cons.mp outlasts
      rw [List.anyM_cons, List.anyM_cons]
      refine .bind head fun found => ?_
      cases found with
      | true => exact .refl _
      | false => exact ih tail

private theorem forM {each longerEach : α → EStateM ε σ PUnit} {items : List α}
    (outlasts : ∀ item ∈ items, Outlasts gaveUp (each item) (longerEach item)) :
    Outlasts gaveUp (items.forM each) (items.forM longerEach) := by
  induction items with
  | nil => exact .refl _
  | cons item items ih =>
      obtain ⟨head, tail⟩ := List.forall_mem_cons.mp outlasts
      exact .bind head fun _ => ih tail

/-- A step that does not give up is not changed by a longer limit. -/
theorem eq_of_ne {state : σ} (outlasts : Outlasts gaveUp step longer)
    (goesOn : ∀ next, step state ≠ .error gaveUp next) : longer state = step state := by
  rcases outlasts state with same | ⟨next, stopped⟩
  · exact same
  · exact (goesOn next stopped).elim

end Outlasts

namespace TypeStore

private theorem representativeWithin_outlasts {limit : Nat} : ∀ {more : Nat}, limit ≤ more → ∀ ty,
    Outlasts .cyclicLinks (representativeWithin limit ty) (representativeWithin more ty) := by
  induction limit with
  | zero =>
      intro more _ ty
      cases ty with
      | var id => exact .of_gaveUp
      | unit | bit | bits _ | product _ => cases more <;> exact .refl _
  | succ limit ih =>
      intro more le ty
      obtain ⟨more, rfl⟩ := Nat.exists_eq_add_of_le' (Nat.one_le_of_lt le)
      cases ty with
      | unit | bit | bits _ | product _ => exact .refl _
      | var id =>
          rw [representativeWithin, representativeWithin]
          refine .bind (.refl _) fun link => ?_
          cases link with
          | none => exact .refl _
          | some next =>
              exact .bind (ih (Nat.le_of_succ_le_succ le) next) fun _ => .refl _

private theorem resolveWithin_outlasts {limit : Nat} : ∀ {more : Nat}, limit ≤ more → ∀ ty,
    Outlasts .cyclicLinks (resolveWithin limit ty) (resolveWithin more ty) := by
  induction limit with
  | zero => exact fun _ _ => .of_gaveUp
  | succ limit ih =>
      intro more le ty
      obtain ⟨more, rfl⟩ := Nat.exists_eq_add_of_le' (Nat.one_le_of_lt le)
      rw [resolveWithin, resolveWithin]
      refine .bind (.refl _) fun head => ?_
      cases head with
      | unit | bit | bits _ | var _ => exact .refl _
      | product members =>
          exact .bind (.mapM fun member _ => ih (Nat.le_of_succ_le_succ le) member) fun _ =>
            .refl _

private theorem occursWithin_outlasts (id : TyVar) {limit : Nat} :
    ∀ {more : Nat}, limit ≤ more → ∀ ty,
      Outlasts .cyclicLinks (occursWithin id limit ty) (occursWithin id more ty) := by
  induction limit with
  | zero => exact fun _ _ => .of_gaveUp
  | succ limit ih =>
      intro more le ty
      obtain ⟨more, rfl⟩ := Nat.exists_eq_add_of_le' (Nat.one_le_of_lt le)
      rw [occursWithin, occursWithin]
      refine .bind (.refl _) fun head => ?_
      cases head with
      | unit | bit | bits _ | var _ => exact .refl _
      | product members => exact .anyM fun member _ => ih (Nat.le_of_succ_le_succ le) member

end TypeStore

namespace Unification

private theorem unifyHeads_outlasts {gaveUp : UnifyError}
    {unifyPair longerPair : Ty → Ty → UnifyM Unit}
    (pairs : ∀ found expected, Outlasts gaveUp (unifyPair found expected)
      (longerPair found expected)) (found expected : Ty) :
    Outlasts gaveUp (unifyHeads unifyPair found expected)
      (unifyHeads longerPair found expected) := by
  cases found with
  | product lefts =>
      cases expected with
      | product rights =>
          rw [unifyHeads, unifyHeads]
          split
          · exact .forM fun pair _ => pairs pair.1 pair.2
          · exact .refl _
      | unit | bit | bits _ | var _ => exact .refl _
  | unit | bit | bits _ | var _ => cases expected <;> exact .refl _

/-- If unification does not give up, then it does the same with more levels. -/
theorem unifyWithin_outlasts {limit : Nat} : ∀ {more : Nat}, limit ≤ more → ∀ found expected,
    Outlasts (.fault (.misuse .cyclicLinks)) (unifyWithin limit found expected)
      (unifyWithin more found expected) := by
  induction limit with
  | zero => exact fun _ _ _ => .of_gaveUp
  | succ limit ih =>
      intro more le found expected
      obtain ⟨more, rfl⟩ := Nat.exists_eq_add_of_le' (Nat.one_le_of_lt le)
      rw [unifyWithin_succ, unifyWithin_succ]
      refine .bind (.refl _) fun foundHead => .bind (.refl _) fun expectedHead => ?_
      exact unifyHeads_outlasts (ih (Nat.le_of_succ_le_succ le)) foundHead expectedHead

end Unification

namespace TypeStore

/-- The link of the first variable mentions the second, perhaps inside products. -/
def Follows (store : TypeStore) (id other : TyVar) : Prop :=
  ∃ ty, store.Linked id ty ∧ other ∈ ty.vars

variable {store : TypeStore} {ty found expected : Ty}

private theorem Ranked.lt_of_follows {rank : TyVar → Nat} (ranked : store.Ranked rank)
    {first last : TyVar} (path : Relation.TransGen store.Follows first last) :
    rank last < rank first := by
  induction path with
  | single step =>
      obtain ⟨ty, linked, inside⟩ := step
      exact ranked _ ty linked _ inside
  | tail _ step ih =>
      obtain ⟨ty, linked, inside⟩ := step
      exact (ranked _ ty linked _ inside).trans ih

private theorem WellFormed.not_follows_self (wellFormed : store.WellFormed) (id : TyVar) :
    ¬ Relation.TransGen store.Follows id id := by
  obtain ⟨rank, ranked⟩ := wellFormed.acyclic
  exact fun path => Nat.lt_irrefl _ (ranked.lt_of_follows path)

/-- Unification of types over a well-formed store never goes wrong. -/
theorem WellFormed.unify_ne_fault (wellFormed : store.WellFormed) (constraints : Constraints)
    (foundOver : found.Over store) (expectedOver : expected.Over store) :
    ∀ fault next, Unification.unify found expected ⟨store, constraints⟩ ≠
      .error (.fault fault) next := by
  intro fault next stopped
  obtain ⟨bound, ends⟩ := Unification.unify_ends ⟨store, constraints⟩ wellFormed foundOver
    expectedOver
  rcases (ends.failed stopped).refused with mismatch | ⟨_, _, arity⟩
  · cases mismatch
  · cases arity

/-- **Links have no cycle and walks along them end.**  In every store that operations on types over
its own variables have made, no variable can be reached from itself.  Looking up heads, resolving,
searching for a variable and unifying therefore end: from the computed limit on, a longer one gives
the same outcome.  None of them finds a cycle or a foreign variable, and none links a variable
twice. -/
theorem Reachable.acyclic_terminating {store : TypeStore} (reachable : store.Reachable) :
    (∀ id, ¬ Relation.TransGen store.Follows id id) ∧
    (∀ ty : Ty, ty.Over store →
      (∃ head next, ∀ limit, store.size < limit →
        representativeWithin limit ty store = .ok head next) ∧
      (∃ resolved next, ∀ limit, store.unfoldLimit [ty] ≤ limit →
        resolveWithin limit ty store = .ok resolved next) ∧
      ∀ id, ∃ answer next, ∀ limit, store.unfoldLimit [ty] ≤ limit →
        occursWithin id limit ty store = .ok answer next) ∧
    ∀ (constraints : Constraints) (found expected : Ty), found.Over store → expected.Over store →
      ∃ outcome, (∀ limit, store.unfoldLimit [found, expected] ≤ limit →
        Unification.unifyWithin limit found expected ⟨store, constraints⟩ = outcome) ∧
          ∀ fault next, outcome ≠ .error (.fault fault) next := by
  have wellFormed := reachable.wellFormed
  refine ⟨wellFormed.not_follows_self, fun ty owned => ⟨?_, ?_, fun id => ?_⟩, ?_⟩
  · obtain ⟨head, next, run, _⟩ := (representative_ends wellFormed owned).exists_ok
    have run : representativeWithin (store.size + 1) ty store = .ok head next := run
    refine ⟨head, next, fun limit enough => ?_⟩
    rw [(representativeWithin_outlasts enough ty).eq_of_ne (by simp [run]), run]
  · obtain ⟨resolved, next, run, _⟩ := (resolve_ends wellFormed owned).exists_ok
    have run : resolveWithin (store.unfoldLimit [ty]) ty store = .ok resolved next := run
    refine ⟨resolved, next, fun limit enough => ?_⟩
    rw [(resolveWithin_outlasts enough ty).eq_of_ne (by simp [run]), run]
  · have ends : Ends (occurs id ty) store _ Never := occurs_ends wellFormed owned
    obtain ⟨answer, next, run, _⟩ := ends.exists_ok
    have run : occursWithin id (store.unfoldLimit [ty]) ty store = .ok answer next := run
    refine ⟨answer, next, fun limit enough => ?_⟩
    rw [(occursWithin_outlasts id enough ty).eq_of_ne (by simp [run]), run]
  · intro constraints found expected foundOver expectedOver
    have outcome := wellFormed.unify_ne_fault constraints foundOver expectedOver
    refine ⟨_, fun limit enough => ?_, outcome⟩
    exact (Unification.unifyWithin_outlasts enough found expected).eq_of_ne (outcome _)

/-- A unification that is refused at its second pair, after the first has linked a variable to a
product that holds the other one. -/
theorem Reachable.acyclic_terminating_refused :
    let made := (TypeStore.empty 0).fresh.2.fresh.2
    let first : Ty := .var ⟨0, 0⟩
    let second : Ty := .var ⟨0, 1⟩
    let refused := Unification.unify (.product [first, first])
      (.product [.product [second], second]) ⟨made, .empty false⟩
    let store := (finalState refused).types
    (∃ next, refused = .error .mismatch next) ∧ store.Linked ⟨0, 0⟩ (.product [second]) ∧
      store.Reachable ∧ (∀ id, ¬ Relation.TransGen store.Follows id id) ∧
      ∃ resolved next, ∀ limit, store.unfoldLimit [first] ≤ limit →
        resolveWithin limit first store = .ok resolved next := by
  intro made first second refused store
  have firstOwned : made.Owns ⟨0, 0⟩ := rfl
  have secondOwned : made.Owns ⟨0, 1⟩ := rfl
  have foundOver : (Ty.product [first, first]).Over made := by
    intro id inside
    obtain rfl : id = ⟨0, 0⟩ := by simpa [Ty.vars, Ty.varsAll, first] using inside
    exact firstOwned
  have expectedOver : (Ty.product [.product [second], second]).Over made := by
    intro id inside
    obtain rfl : id = ⟨0, 1⟩ := by simpa [Ty.vars, Ty.varsAll, second] using inside
    exact secondOwned
  have reachable : store.Reachable :=
    .unify (.empty false) (.fresh (.fresh (.empty 0))) foundOver expectedOver
  have firstOver : first.Over store := by
    intro id inside
    obtain rfl := Ty.mem_vars_var.mp inside
    rfl
  obtain ⟨acyclic, walks, _⟩ := reachable.acyclic_terminating
  exact ⟨⟨_, rfl⟩, rfl, reachable, acyclic, (walks first firstOver).2.1⟩

end TypeStore

end CircuitWidths
