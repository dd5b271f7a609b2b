import CircuitWidths.Proofs.Rendering
import CircuitWidths.Proofs.Static.Meaning
import CircuitWidths.Proofs.Ty.Repetition

/-!
# Legible types stay legible

What the store does with legible types gives legible types again: following links, resolving and
unification do not bring in names, and nothing makes the type without values from others.  Two types
whose unification is refused are told apart by their resolved forms, although the links that were
made before the refusal stay (`unify_refused_ne`).
-/

namespace CircuitWidths

namespace Static.Expr

variable {expr : Expr}

/-- A legible expression is legible when it is simplified. -/
theorem Legible.simplify (legible : expr.Legible) : expr.simplify.Legible :=
  fun name mentioned => legible name (mentions_of_mentions_simplify mentioned)

private theorem Legible.substitute {bindings : Bindings Expr} (legible : expr.Legible)
    (bound : ∀ name replacement, bindings.get? name = some replacement → replacement.Legible) :
    (expr.substitute bindings).Legible := by
  intro name mentioned
  rcases mentions_substitute mentioned with ⟨inside, _⟩ | ⟨other, replacement, _, found, inside⟩
  · exact legible name inside
  · exact bound other replacement found name inside

end Static.Expr

namespace Ty.Legible

variable {owner : Nat} {ty : Ty}

private theorem members {members : List Ty} (legible : (Ty.product members).Legible owner) :
    ∀ member ∈ members, member.Legible owner := by
  cases legible with
  | product each => exact each

/-- Legible expressions may be put into a legible type. -/
theorem substitute {bindings : Bindings Static.Expr} (legible : ty.Legible owner)
    (bound : ∀ name replacement, bindings.get? name = some replacement → replacement.Legible) :
    (ty.substitute bindings).Legible owner := by
  induction legible with
  | bit => exact .bit
  | bits width => exact .bits (width.substitute bound).simplify
  | var owned => exact .var owned
  | product _ ih =>
      rw [Ty.substitute, Ty.substituteAll_eq_map]
      refine .product fun result inside => ?_
      obtain ⟨member, mem, rfl⟩ := List.mem_map.mp inside
      exact ih member mem

end Ty.Legible

namespace TypeStore

variable {owner : Nat} {store next : TypeStore} {ty head resolved : Ty}

/-- The store belongs to the owner, and all links are to legible types. -/
structure Legible (owner : Nat) (store : TypeStore) : Prop where
  wellFormed : store.WellFormed
  belongs : store.links.owner = owner
  links : ∀ id ty, store.Linked id ty → ty.Legible owner

/-- A store without links is legible. -/
theorem Legible.empty (owner : Nat) : (TypeStore.empty owner).Legible owner where
  wellFormed := empty_wellFormed owner
  belongs := rfl
  links := fun _ _ linked => (Nat.not_lt_zero _ (owns_iff.mp linked.owns).2).elim

private theorem Legible.var {id : TyVar} (legible : store.Legible owner) (owned : store.Owns id) :
    (Ty.var id).Legible owner :=
  .var ((owns_iff.mp owned).1.trans legible.belongs)

private theorem Legible.leads (legible : store.Legible owner) (tyLegible : ty.Legible owner)
    (leads : store.Leads ty head) : head.Legible owner := by
  induction leads with
  | concrete _ => exact tyLegible
  | free _ => exact tyLegible
  | follow linked _ ih => exact ih (legible.links _ _ linked)

/-- A legible type is legible when its links are followed. -/
theorem Legible.resolves (legible : store.Legible owner) (tyLegible : ty.Legible owner)
    (resolves : store.Resolves ty resolved) : resolved.Legible owner := by
  induction resolves with
  | leaf leads _ => exact legible.leads tyLegible leads
  | @product ty members results leads length _ ih =>
      have membersLegible := (legible.leads tyLegible leads).members
      refine .product fun result inside => ?_
      have each := List.forall₂_iff_zip.mpr ⟨length, ih⟩
      obtain ⟨member, mem, resultLegible⟩ := forall₂_exists_mem_right each.flip inside
      exact resultLegible (membersLegible member mem)

/-- Shortening paths keeps a store legible. -/
theorem Legible.shortened (legible : store.Legible owner) (shortened : Shortened store next) :
    next.Legible owner where
  wellFormed := shortened.wellFormed legible.wellFormed
  belongs := shortened.owner.trans legible.belongs
  links := by
    intro id ty linked
    rcases shortened.link id with kept | ⟨old, head, oldLinked, leads, written⟩
    · exact legible.links id ty (kept.symm.trans linked)
    · obtain rfl : ty = head := linked.unique written
      exact legible.leads (legible.var oldLinked.owns) leads

/-- A new variable is legible, and so is the store with it. -/
theorem Legible.fresh (legible : store.Legible owner) :
    store.fresh.1.Legible owner ∧ store.fresh.2.Legible owner := by
  obtain ⟨made, sameOwner, _, _⟩ := store.fresh_spec
  refine ⟨?_, fresh_wellFormed legible.wellFormed, sameOwner.trans legible.belongs,
    fun id ty linked => legible.links id ty (linked_fresh linked)⟩
  rw [made]
  exact .var legible.belongs

/-- Unification of legible types keeps the links legible. -/
theorem Stable.legible (owner : Nat) : Stable (Legible owner) (Ty.Legible owner) where
  wellFormed := fun legible => legible.wellFormed
  shortened := fun legible shortened => legible.shortened shortened
  assigned := by
    intro store next id ty legible tyLegible _ assigned wellFormed
    refine ⟨wellFormed, assigned.sameVars.owner.trans legible.belongs, fun other target linked => ?_⟩
    rcases assigned.linked_iff.mp linked with ⟨_, rfl⟩ | before
    · exact tyLegible
    · exact legible.links other target before
  leads := fun legible tyLegible leads => legible.leads tyLegible leads
  members := fun legible => legible.members

/-- Resolving any type keeps the links legible, and resolving a legible type gives a legible type. -/
theorem resolve_legible (ty : Ty) : Preserves (Legible owner) (resolve ty)
    fun resolved => ty.Legible owner → resolved.Legible owner := by
  intro store legible
  refine ((Shortened.refl store).resolve_tries legible.wellFormed ty).imp ?_ ?_
  · intro resolved next ⟨shortened, _, resolves⟩
    exact ⟨legible.shortened shortened, fun tyLegible => legible.resolves tyLegible resolves⟩
  · exact fun _ next shortened => legible.shortened shortened

end TypeStore

namespace Unification

variable {owner : Nat} {state next : Unification} {found expected shown otherShown : Ty}

/-- Unification of legible types, whether it succeeds or not, leaves all links legible. -/
theorem unify_legible (foundLegible : found.Legible owner)
    (expectedLegible : expected.Legible owner) :
    Preserves (fun state => state.types.Legible owner) (unify found expected) fun _ => True :=
  .get_bind fun _ =>
    (TypeStore.Stable.legible owner).unifyWithin_keeps _ foundLegible expectedLegible

/-- The links made by a unification that is refused do not make the two types look the same. -/
theorem unify_refused_ne {error : UnifyError} (wellFormed : state.types.WellFormed)
    (run : unify found expected state = .error error next)
    (resolves : next.types.Resolves found shown)
    (otherResolves : next.types.Resolves expected otherShown) : shown ≠ otherShown := by
  rintro rfl
  have keeps : Preserves (fun later : Unification => later.types.WellFormed ∧
      state.types.SameVars later.types) (unify found expected) fun _ => True :=
    .get_bind fun _ => (TypeStore.Stable.sameVars state.types).unifyWithin_keeps _ trivial trivial
  obtain ⟨_, sameVars⟩ := (keeps state ⟨wellFormed, .refl _⟩).failed run
  obtain ⟨bound, ends⟩ := unify_ends state wellFormed (sameVars.over_iff.mp resolves.start_over)
    (sameVars.over_iff.mp otherResolves.start_over)
  have excludes := ends.failed run
  -- Any model of the links that were left behind gives both types the value of this form.
  let reading : Static.Reading := ⟨fun _ => 0, fun _ _ => 0⟩
  obtain ⟨_, respects, _⟩ :=
    excludes.advances.wellFormed.exists_respects ⟨reading, fun _ => 0, fun _ => .unit⟩
  apply excludes.never _ (excludes.advances.precedes.respects respects)
  rw [resolves.denote_eq respects, otherResolves.denote_eq respects]

end Unification

end CircuitWidths
