import CircuitWidths.Proofs.Ty.Resolve

/-!
# Later stores

A store only gains knowledge: variables are added, and links are added to variables that had none.
What a store says about its variables stays true in every later store (`Precedes`).  Linking a
variable to a type in which it does not occur keeps a store well formed, since the variables from
which it can be reached can be ranked above all others.
-/

namespace CircuitWidths

namespace TypeStore

/-- The later store still has everything that the earlier one says about its variables. -/
structure Precedes (store later : TypeStore) : Prop where
  owner : later.links.owner = store.links.owner
  size : store.size ≤ later.size
  leads : ∀ {ty head : Ty}, (∀ id, head ≠ .var id) → store.Leads ty head → later.Leads ty head
  respects : ∀ {model : Model}, model.Respects later → model.Respects store

variable {store next later : TypeStore} {id : TyVar} {ty : Ty} {model : Model} {bound : Nat}

namespace Precedes

theorem refl (store : TypeStore) : Precedes store store :=
  ⟨rfl, Nat.le_refl _, fun _ leads => leads, fun respects => respects⟩

theorem trans (first : Precedes store next) (second : Precedes next later) :
    Precedes store later where
  owner := second.owner.trans first.owner
  size := first.size.trans second.size
  leads := fun concrete leads => second.leads concrete (first.leads concrete leads)
  respects := fun respects => first.respects (second.respects respects)

/-- Variables stay in the store. -/
theorem owns (precedes : Precedes store later) (owned : store.Owns id) : later.Owns id := by
  obtain ⟨sameOwner, below⟩ := owns_iff.mp owned
  exact owns_iff.mpr ⟨sameOwner.trans precedes.owner.symm, below.trans_le precedes.size⟩

/-- A type over a store is over every later one. -/
theorem owned (precedes : Precedes store later) (owned : ty.Over store) : ty.Over later :=
  fun id inside => precedes.owns (owned id inside)

end Precedes

/-- A store with shortened paths is a later one. -/
theorem Shortened.precedes (shortened : Shortened store next) : Precedes store next where
  owner := shortened.owner
  size := shortened.size.ge
  leads := fun _ leads => shortened.leads_of_leads leads
  respects := shortened.respects_iff.mp

/-! ## New variables -/

/-- A new variable is the next one in order, and the other variables stay as they are. -/
theorem fresh_spec (store : TypeStore) :
    store.fresh.1 = .var ⟨store.links.owner, store.size⟩ ∧
      store.fresh.2.links.owner = store.links.owner ∧ store.fresh.2.size = store.size + 1 ∧
      ∀ id, store.fresh.2.links.get? id =
        if id = ⟨store.links.owner, store.size⟩ then some none else store.links.get? id := by
  refine ⟨rfl, rfl, ?_, store.links.get?_push none⟩
  simp [fresh, size, Slots.size, Slots.push]

/-- A new variable has no link, and no other link is new. -/
theorem linked_fresh {id : TyVar} {ty : Ty} (linked : store.fresh.2.Linked id ty) :
    store.Linked id ty := by
  rw [Linked, store.fresh_spec.2.2.2] at linked
  split at linked
  · cases linked
  · exact linked

/-- A store with one more variable is a later one. -/
theorem fresh_precedes (store : TypeStore) : Precedes store store.fresh.2 := by
  obtain ⟨_, owner, size, link⟩ := store.fresh_spec
  have kept : ∀ {id}, store.Owns id → store.fresh.2.links.get? id = store.links.get? id := by
    intro id owned
    rw [link, if_neg]
    rintro rfl
    exact Nat.lt_irrefl _ (owns_iff.mp owned).2
  refine ⟨owner, size ▸ Nat.le_succ _, ?_, ?_⟩
  · intro ty head concrete leads
    induction leads with
    | concrete concrete => exact .concrete concrete
    | free unlinked => exact (concrete _ rfl).elim
    | follow linked _ ih =>
        exact .follow ((kept linked.owns).trans linked) (ih concrete)
  · intro model respects id ty linked
    exact respects id ty ((kept linked.owns).trans linked)

/-- A model of the store is one of the store with one more variable. -/
theorem fresh_respects (respects : model.Respects store) : model.Respects store.fresh.2 :=
  fun id ty linked => respects id ty (linked_fresh linked)

/-- A new variable keeps a store well formed. -/
theorem fresh_wellFormed (wellFormed : store.WellFormed) : store.fresh.2.WellFormed := by
  obtain ⟨rank, ranked⟩ := wellFormed.acyclic
  exact ⟨fun id ty linked => store.fresh_precedes.owned (wellFormed.closed id ty (linked_fresh linked)),
    rank, fun id ty linked => ranked id ty (linked_fresh linked)⟩

/-- A new variable is in the store that it is made in. -/
theorem fresh_owns (store : TypeStore) :
    store.fresh.2.Owns ⟨store.links.owner, store.size⟩ := by
  rw [Owns, store.fresh_spec.2.2.2, if_pos rfl]
  rfl

/-! ## New links -/

/-- A variable without a link was linked to the type. -/
structure Assigned (store : TypeStore) (id : TyVar) (ty : Ty) (next : TypeStore) : Prop where
  unlinked : store.Unlinked id
  owner : next.links.owner = store.links.owner
  size : next.size = store.size
  link : ∀ other, next.links.get? other =
    if other = id then some (some ty) else store.links.get? other

namespace Assigned

/-- An assignment adds one link and keeps all others. -/
theorem linked_iff (assigned : Assigned store id ty next) {other : TyVar} {target : Ty} :
    next.Linked other target ↔
      (other = id ∧ target = ty) ∨ store.Linked other target := by
  rw [Linked, assigned.link]
  split
  · rename_i same
    subst same
    have absent : ¬ store.Linked other target := fun linked => linked.not_unlinked assigned.unlinked
    simp [absent, eq_comm]
  · rename_i differs
    simp [differs, Linked]

/-- An assignment asks of models that the variable stands for the type. -/
theorem respects_iff (assigned : Assigned store id ty next) :
    model.Respects next ↔ model.Respects store ∧ model.grounds id = ty.denote model := by
  simp only [Model.Respects, assigned.linked_iff]
  constructor
  · intro respects
    exact ⟨fun other target linked => respects other target (.inr linked),
      respects id ty (.inl ⟨rfl, rfl⟩)⟩
  · rintro ⟨respects, bound⟩ other target (⟨rfl, rfl⟩ | linked)
    · exact bound
    · exact respects other target linked

/-- A store with one more link is a later one. -/
theorem precedes (assigned : Assigned store id ty next) : Precedes store next := by
  refine ⟨assigned.owner, assigned.size.ge, ?_, fun respects => (assigned.respects_iff.mp respects).1⟩
  intro start head concrete leads
  induction leads with
  | concrete concrete => exact .concrete concrete
  | free unlinked => exact (concrete _ rfl).elim
  | follow linked _ ih => exact .follow (assigned.linked_iff.mpr (.inr linked)) (ih concrete)

/-- A link to a type that is not too deep keeps the store shallow. -/
theorem shallow (assigned : Assigned store id ty next) (shallow : store.Shallow bound)
    (depth : ty.depth ≤ bound) : next.Shallow bound := by
  intro other target linked
  rcases assigned.linked_iff.mp linked with ⟨rfl, rfl⟩ | before
  · exact depth
  · exact shallow other target before

end Assigned

/-- A variable occurs in every type that mentions a variable in which it occurs. -/
theorem Occurs.of_mem_vars {other : TyVar} (occurs : store.Occurs id (.var other)) {ty : Ty}
    (inside : other ∈ ty.vars) : store.Occurs id ty := by
  induction ty with
  | unit => cases inside
  | bit => cases inside
  | bits width => cases inside
  | var passed =>
      obtain rfl := Ty.mem_vars_var.mp inside
      exact occurs
  | product members ih =>
      obtain ⟨member, mem, mentioned⟩ := Ty.mem_vars_product.mp inside
      exact .inside (.concrete (by simp)) mem (ih member mem mentioned)

private theorem Occurs.of_linked {other : TyVar} (occurs : store.Occurs id ty)
    (linked : store.Linked other ty) : store.Occurs id (.var other) := by
  cases occurs with
  | here leads => exact .here (.follow linked leads)
  | inside leads mem occurs => exact .inside (.follow linked leads) mem occurs

open Classical in
/-- The occurs check keeps links free of cycles. -/
theorem Assigned.wellFormed (assigned : Assigned store id ty next) (wellFormed : store.WellFormed)
    (owned : ty.Over store) (absent : ¬ store.Occurs id ty) : next.WellFormed := by
  obtain ⟨rank, ranked, bounded⟩ := wellFormed.exists_rank
  -- Variables that reach `id` are moved above all variables that do not.
  let raised : TyVar → Nat := fun other =>
    if store.Occurs id (.var other) then rank other + store.size else rank other
  refine ⟨?_, raised, ?_⟩
  · intro other target linked
    rcases assigned.linked_iff.mp linked with ⟨rfl, rfl⟩ | before
    · exact assigned.precedes.owned owned
    · exact assigned.precedes.owned (wellFormed.closed other target before)
  · intro other target linked mentioned inside
    rcases assigned.linked_iff.mp linked with ⟨rfl, rfl⟩ | before
    · have low : ¬ store.Occurs other (.var mentioned) := fun occurs =>
        absent (occurs.of_mem_vars inside)
      have reached : store.Occurs other (.var other) := .here (.free assigned.unlinked)
      have below := bounded mentioned (owned mentioned inside)
      simp only [raised, low, reached, if_false, if_true]
      omega
    · have less := ranked other target before mentioned inside
      have upward : store.Occurs id (.var mentioned) → store.Occurs id (.var other) :=
        fun occurs => (occurs.of_mem_vars inside).of_linked before
      simp only [raised]
      by_cases reaches : store.Occurs id (.var mentioned)
      · rw [if_pos reaches, if_pos (upward reaches)]
        omega
      · rw [if_neg reaches]
        split <;> omega

/-- Linking a variable without a link succeeds. -/
theorem assign_ends (unlinked : store.Unlinked id) :
    Ends (assign id ty) store (fun _ next => Assigned store id ty next) Never := by
  have found : link id store = .ok none store := by rw [link, unlinked]
  have writable : (store.links.set? id (some ty)).isSome = true := by
    rw [Slots.set?_isSome_iff]
    exact unlinked.owns
  obtain ⟨links, replaced⟩ := Option.isSome_iff_exists.mp writable
  have run : relink id ty store = .ok () ⟨links⟩ := by rw [relink, replaced]
  exact .after found (.of_ok run ⟨unlinked, (Slots.size_of_set? replaced).1,
    (Slots.size_of_set? replaced).2, Slots.get?_of_set? replaced⟩)

end TypeStore

end CircuitWidths
