import CircuitWidths.Proofs.Ty.LikeUnification

/-!
# Shapes

The shape of a type is what is left of it when its widths are forgotten.  Unification never fails
because of widths, it only collects equations between them.  So it can be followed on the shapes
alone: it succeeds exactly if the variables can have shapes with which both types have the same
one, and then it leaves exactly those shapes (`Unification.unify_shapes`).
-/

namespace CircuitWidths

/-- The shape of every type variable. -/
abbrev Shapes := TyVar → GroundTy

/-- A model in which variables have these shapes; what static variables stand for does not
matter. -/
def Model.ofShapes (shapes : Shapes) : Model :=
  ⟨⟨fun _ => 0, fun _ _ => 0⟩, fun _ => 0, shapes⟩

namespace Ty

mutual

/-- The type with all widths forgotten. -/
def erase : Ty → Ty
  | .unit => .unit
  | .bit => .bit
  | .bits _ => .bits (.int 1)
  | .product members => .product (eraseAll members)
  | .var id => .var id

/-- The types with all widths forgotten. -/
def eraseAll : List Ty → List Ty
  | [] => []
  | ty :: rest => ty.erase :: eraseAll rest

end

private theorem eraseAll_eq_map (tys : List Ty) : eraseAll tys = tys.map erase := by
  induction tys with
  | nil => rfl
  | cons ty rest ih => rw [eraseAll, ih, List.map_cons]

private theorem erase_product (members : List Ty) :
    (Ty.product members).erase = .product (members.map erase) := by
  rw [erase, eraseAll_eq_map]

private theorem mem_vars_erase {id : TyVar} {ty : Ty} : id ∈ ty.erase.vars ↔ id ∈ ty.vars := by
  induction ty with
  | unit => rfl
  | bit => rfl
  | bits width => rfl
  | var other => rfl
  | product members ih =>
      rw [erase_product, mem_vars_product, mem_vars_product]
      constructor
      · rintro ⟨_, member, inside⟩
        obtain ⟨original, found, rfl⟩ := List.mem_map.mp member
        exact ⟨original, found, (ih original found).mp inside⟩
      · rintro ⟨original, found, inside⟩
        exact ⟨original.erase, List.mem_map_of_mem found, (ih original found).mpr inside⟩

/-- The shape of a type: its ground type, with width one everywhere, where variables have these
shapes. -/
def shape (shapes : Shapes) (ty : Ty) : GroundTy :=
  ty.erase.denote (.ofShapes shapes)

section Shapes

variable {shapes others : Shapes}

@[simp] theorem shape_bit : Ty.bit.shape shapes = .bits 1 := rfl

@[simp] theorem shape_bits (width : Static.Expr) : (Ty.bits width).shape shapes = .bits 1 := rfl

@[simp] theorem shape_var (id : TyVar) : (Ty.var id).shape shapes = shapes id := rfl

@[simp] theorem shape_product (members : List Ty) :
    (Ty.product members).shape shapes = .product (members.map (shape shapes)) := by
  rw [shape, erase_product, denote_product, List.map_map]
  rfl

/-- Only the shapes of the variables in a type matter. -/
theorem shape_congr {ty : Ty} (same : ∀ id ∈ ty.vars, shapes id = others id) :
    ty.shape shapes = ty.shape others := by
  induction ty with
  | unit => rfl
  | bit => rfl
  | bits width => rfl
  | var id => exact same id (by simp)
  | product members ih =>
      rw [shape_product, shape_product]
      congr 1
      apply List.map_congr_left
      intro member inside
      exact ih member inside fun id mentioned =>
        same id (mem_vars_product.mpr ⟨member, inside, mentioned⟩)

end Shapes

end Ty

/-! ## Stores with widths forgotten -/

/-- All widths are alike. -/
def erasing : Likeness where
  width := fun _ other => other = .int 1
  var := Eq
  unique := biUnique_eq

private theorem Ty.erase_like (ty : Ty) : ty.Like erasing ty.erase := by
  induction ty with
  | unit => exact .unit
  | bit => exact .bit
  | bits width => exact .bits rfl
  | var id => exact .var rfl
  | product members ih =>
      rw [erase_product]
      apply Ty.Like.product
      rw [List.forall₂_map_right_iff]
      exact List.forall₂_same.mpr ih

private theorem Ty.Like.eq_erase {ty : Ty} : ∀
    {other : Ty}, ty.Like erasing other → other = ty.erase := by
  induction ty with
  | unit =>
      intro other like
      cases like
      rfl
  | bit =>
      intro other like
      cases like
      rfl
  | bits width =>
      intro other like
      cases like with
      | bits erased => rw [erased, Ty.erase]
  | var id =>
      intro other like
      cases like with
      | var paired => rw [← show id = _ from paired, Ty.erase]
  | product members ih =>
      intro other like
      cases like with
      | @product _ others each =>
          have erased := forall₂_imp_of_mem each fun member inside _ => ih member inside
          have same : others = members.map Ty.erase := by
            rw [← List.forall₂_eq_eq_eq, List.forall₂_map_right_iff]
            exact erased.flip
          rw [same, Ty.erase_product]

namespace TypeStore

variable {store next other : TypeStore} {id : TyVar} {ty head : Ty} {model : Model}

/-- The store with all widths forgotten. -/
def erase (store : TypeStore) : TypeStore :=
  ⟨⟨store.links.owner, store.links.values.map (Option.map Ty.erase)⟩⟩

private theorem get?_erase (store : TypeStore) (id : TyVar) :
    store.erase.links.get? id = (store.links.get? id).map (Option.map Ty.erase) := by
  unfold erase Slots.get?
  by_cases owned : id.owner = store.links.owner
  · rw [if_pos owned, if_pos owned, Array.getElem?_map]
  · rw [if_neg owned, if_neg owned]
    rfl

private theorem owns_erase : store.erase.Owns id ↔ store.Owns id := by
  rw [Owns, Owns, get?_erase, Option.isSome_map]

private theorem linked_erase :
    store.erase.Linked id ty ↔ ∃ original, store.Linked id original ∧ original.erase = ty := by
  simp only [Linked, get?_erase, Option.map_eq_some_iff]
  constructor
  · rintro ⟨_, found, original, rfl, same⟩
    exact ⟨original, found, same⟩
  · rintro ⟨original, found, same⟩
    exact ⟨some original, found, original, rfl, same⟩

private theorem Unlinked.erase (unlinked : store.Unlinked id) : store.erase.Unlinked id := by
  rw [Unlinked, get?_erase, unlinked]
  rfl

private theorem Leads.erase (leads : store.Leads ty head) :
    store.erase.Leads ty.erase head.erase := by
  induction leads with
  | @concrete ty concrete =>
      apply Leads.concrete
      intro id same
      cases ty with
      | unit | bit | bits _ | product _ => cases same
      | var other => exact concrete other rfl
  | free unlinked => exact .free unlinked.erase
  | follow linked _ ih => exact .follow (linked_erase.mpr ⟨_, linked, rfl⟩) ih

private theorem WellFormed.erase (wellFormed : store.WellFormed) : store.erase.WellFormed := by
  obtain ⟨rank, ranked⟩ := wellFormed.acyclic
  refine ⟨?_, rank, ?_⟩
  · intro id ty linked other inside
    obtain ⟨original, before, rfl⟩ := linked_erase.mp linked
    exact owns_erase.mpr (wellFormed.closed id original before other (Ty.mem_vars_erase.mp inside))
  · intro id ty linked other inside
    obtain ⟨original, before, rfl⟩ := linked_erase.mp linked
    exact ranked id original before other (Ty.mem_vars_erase.mp inside)

private theorem WellFormed.erase_like (wellFormed : store.WellFormed) :
    store.Like erasing store.erase where
  wellFormed := wellFormed
  otherWellFormed := wellFormed.erase
  owns := by
    rintro id _ rfl
    exact owns_erase.symm
  leads := by
    rintro id _ head rfl leads
    exact ⟨head.erase, leads.erase, head.erase_like⟩

/-- A model of the links is a model of the heads that they lead to. -/
theorem WellFormed.respects_iff_leads (wellFormed : store.WellFormed) : model.Respects store ↔
    ∀ id head, store.Leads (.var id) head → model.grounds id = head.denote model := by
  constructor
  · exact fun respects id head leads => leads.denote_eq respects
  · intro heads id ty linked
    obtain ⟨head, leads⟩ := wellFormed.exists_leads (wellFormed.closed id ty linked)
    have whole := heads id head (.follow linked leads)
    cases leads with
    | concrete _ => exact whole
    | free _ => exact whole
    | @follow other between _ alsoLinked rest =>
        rw [whole, Ty.denote_var, heads other head (.follow alsoLinked rest)]

/-- Stores with the same widths forgotten have the same models. -/
theorem Like.respects_erase (alike : store.Like erasing other) :
    model.Respects other ↔ model.Respects store.erase := by
  rw [alike.otherWellFormed.respects_iff_leads, alike.wellFormed.erase.respects_iff_leads]
  have sameHeads : ∀ {id head}, other.Leads (.var id) head ↔ store.erase.Leads (.var id) head := by
    intro id head
    constructor
    · intro leads
      have owned : store.Owns id := (alike.owns rfl).mpr leads.owns_start
      obtain ⟨found, foundLeads⟩ := alike.wellFormed.exists_leads owned.over_var
      rw [(alike.heads (.var rfl) foundLeads leads).eq_erase]
      exact foundLeads.erase
    · intro leads
      have owned : store.Owns id := owns_erase.mp leads.owns_start
      obtain ⟨found, foundLeads⟩ := alike.wellFormed.exists_leads owned.over_var
      obtain ⟨otherHead, otherLeads, like⟩ := alike.leads rfl foundLeads
      rw [leads.unique foundLeads.erase, ← like.eq_erase]
      exact otherLeads
  simp only [sameHeads]

/-! ## Shapes that fit a store -/

/-- Linked variables have the shapes of what they are linked to. -/
def Shaped (store : TypeStore) (shapes : Shapes) : Prop :=
  ∀ id ty, store.Linked id ty → shapes id = ty.shape shapes

variable {shapes others : Shapes}

private theorem shaped_iff_respects :
    store.Shaped shapes ↔ (Model.ofShapes shapes).Respects store.erase := by
  constructor
  · intro shaped id ty linked
    obtain ⟨original, before, rfl⟩ := linked_erase.mp linked
    exact shaped id original before
  · exact fun respects id ty linked => respects id ty.erase (linked_erase.mpr ⟨ty, linked, rfl⟩)

/-- A well-formed store has shapes for its variables. -/
theorem WellFormed.exists_shaped (wellFormed : store.WellFormed) : ∃ shapes, store.Shaped shapes := by
  obtain ⟨grounds, respects, _⟩ := wellFormed.erase.exists_respects (.ofShapes fun _ => .unit)
  exact ⟨grounds, shaped_iff_respects.mpr respects⟩

private theorem Shaped.congr (shaped : store.Shaped shapes) (wellFormed : store.WellFormed)
    (same : ∀ id, store.Owns id → others id = shapes id) : store.Shaped others := by
  intro id ty linked
  rw [same id linked.owns, shaped id ty linked]
  apply Ty.shape_congr
  intro other inside
  exact (same other (wellFormed.closed id ty linked other inside)).symm

/-- A new variable may have any shape. -/
theorem shaped_fresh : store.fresh.2.Shaped shapes ↔ store.Shaped shapes := by
  constructor
  · intro shaped id ty linked
    apply shaped id ty
    rw [Linked, store.fresh_spec.2.2.2, if_neg]
    · exact linked
    · rintro rfl
      exact Nat.lt_irrefl _ (owns_iff.mp linked.owns).2
  · exact fun shaped id ty linked => shaped id ty (linked_fresh linked)

/-- A new variable can have any shape. -/
theorem Shaped.extend_fresh (shaped : store.Shaped shapes) (wellFormed : store.WellFormed)
    (shape : GroundTy) : ∃ others : Shapes, store.fresh.2.Shaped others ∧
      (∀ id, store.Owns id → others id = shapes id) ∧
      others ⟨store.links.owner, store.size⟩ = shape := by
  have kept : ∀ id, store.Owns id →
      Function.update shapes ⟨store.links.owner, store.size⟩ shape id = shapes id := by
    intro id owned
    apply Function.update_of_ne
    rintro rfl
    exact Nat.lt_irrefl _ (owns_iff.mp owned).2
  exact ⟨_, shaped_fresh.mpr (shaped.congr wellFormed kept), kept, Function.update_self _ _ _⟩

/-- A type and its head have the same shape. -/
theorem Leads.shape_eq (leads : store.Leads ty head) (shaped : store.Shaped shapes) :
    ty.shape shapes = head.shape shapes := by
  induction leads with
  | concrete _ => rfl
  | free _ => rfl
  | follow linked _ ih => exact (shaped _ _ linked).trans ih

end TypeStore

/-- Unification fails because of shapes only, and leaves the shapes under which the two types have
the same one. -/
theorem Unification.unify_shapes {found expected : Ty} (state : Unification)
    (wellFormed : state.types.WellFormed) (foundOver : found.Over state.types)
    (expectedOver : expected.Over state.types) :
    Ends (unify found expected) state
      (fun _ next => ∀ shapes, next.types.Shaped shapes ↔
        state.types.Shaped shapes ∧ found.shape shapes = expected.shape shapes)
      (fun _ _ => ∀ shapes, state.types.Shaped shapes →
        found.shape shapes ≠ expected.shape shapes) := by
  -- With widths forgotten all equations between widths are trivial, and none is collected.
  let erased : Unification := ⟨state.types.erase, .empty false⟩
  have tracks : erasing.Tracks fun _ others => others = .empty false := by
    refine ⟨rfl, ?_⟩
    rintro _ others left right otherLeft otherRight rfl rfl rfl
    exact if_pos ⟨rfl, rfl⟩
  have alike : state.Like erasing (fun _ others => others = .empty false) erased :=
    ⟨wellFormed.erase_like, rfl⟩
  have together := unify_together tracks alike found.erase_like expected.erase_like foundOver
    expectedOver
  have overErased : ∀ {ty : Ty}, ty.Over state.types → ty.erase.Over erased.types :=
    fun owned => alike.types.isOver (Ty.erase_like _) owned
  obtain ⟨bound, ends⟩ := unify_ends erased wellFormed.erase (overErased foundOver)
    (overErased expectedOver)
  generalize run : unify found expected state = outcome at together
  generalize erasedRun : unify found.erase expected.erase erased = erasedOutcome at together
  cases together with
  | @returned _ _ next last onward =>
      apply Ends.of_ok run
      obtain ⟨conditions, pending, exactly⟩ := (ends.returned erasedRun).exactly
      have none : conditions = [] := by
        rw [onward.like.constraints] at pending
        exact (List.append_eq_nil_iff.mp pending.symm).2
      intro shapes
      rw [TypeStore.shaped_iff_respects, ← onward.like.types.respects_erase,
        TypeStore.shaped_iff_respects]
      have models := exactly (.ofShapes shapes)
      rw [none] at models
      exact (and_iff_left Static.allHold_nil).symm.trans models
  | failed stopped =>
      apply Ends.of_error run
      intro shapes shaped
      exact (ends.failed erasedRun).never _ (TypeStore.shaped_iff_respects.mp shaped)

end CircuitWidths
