import CircuitWidths.Proofs.InStep
import CircuitWidths.Proofs.Ty.Later
import Mathlib.Logic.Relator

/-!
# Stores that are alike

Two type stores may have made their variables at different times and arranged their links
differently, and still say the same about variables that are paired off: paired variables lead to
types that are alike.  Then looking up, resolving and searching types that are alike gives results
that are alike, and links that are alike keep the stores alike.
-/

namespace CircuitWidths

/-- Equality pairs everything with one thing only. -/
theorem biUnique_eq {α : Type} : Relator.BiUnique (Eq : α → α → Prop) :=
  ⟨fun _ _ _ first second => first.trans second.symm,
    fun _ _ _ first second => first.symm.trans second⟩

/-- Which widths count as alike, and which variables are paired, each with at most one other. -/
structure Likeness where
  width : Static.Expr → Static.Expr → Prop
  var : TyVar → TyVar → Prop
  unique : Relator.BiUnique var

/-- The same, seen from the other side. -/
def Likeness.flip (likeness : Likeness) : Likeness where
  width := fun width other => likeness.width other width
  var := fun id partner => likeness.var partner id
  unique := ⟨fun _ _ _ first second => likeness.unique.2 first second,
    fun _ _ _ first second => likeness.unique.1 first second⟩

/-- The types have the same structure, with widths that are alike and paired variables. -/
inductive Ty.Like (likeness : Likeness) : Ty → Ty → Prop
  | unit : Like likeness .unit .unit
  | bit : Like likeness .bit .bit
  | bits {width other : Static.Expr} (widths : likeness.width width other) :
      Like likeness (.bits width) (.bits other)
  | product {members others : List Ty} (each : List.Forall₂ (Like likeness) members others) :
      Like likeness (.product members) (.product others)
  | var {id partner : TyVar} (paired : likeness.var id partner) :
      Like likeness (.var id) (.var partner)

/-- Both stores are well formed, and paired variables belong to both and lead to types that are
alike, or belong to neither. -/
structure TypeStore.Like (likeness : Likeness) (store other : TypeStore) : Prop where
  wellFormed : store.WellFormed
  otherWellFormed : other.WellFormed
  owns : ∀ {id partner : TyVar}, likeness.var id partner → (store.Owns id ↔ other.Owns partner)
  leads : ∀ {id partner : TyVar} {head : Ty}, likeness.var id partner →
    store.Leads (.var id) head → ∃ otherHead, other.Leads (.var partner) otherHead ∧
      head.Like likeness otherHead

variable {likeness : Likeness}

/-- A type is like itself if its widths and variables are. -/
theorem Ty.like_self {ty : Ty}
    (widths : ∀ width ∈ ty.widths, likeness.width width width)
    (vars : ∀ id ∈ ty.vars, likeness.var id id) : ty.Like likeness ty := by
  induction ty with
  | unit => exact .unit
  | bit => exact .bit
  | bits width => exact .bits (widths width (by simp [Ty.widths]))
  | var id => exact .var (vars id (by simp))
  | product members ih =>
      apply Ty.Like.product
      apply List.forall₂_same.mpr
      intro member inside
      apply ih member inside
      · intro width written
        exact widths width (Ty.mem_widthsAll.mpr ⟨member, inside, written⟩)
      · intro id mentioned
        exact vars id (Ty.mem_vars_product.mpr ⟨member, inside, mentioned⟩)

private theorem Ty.Like.flip {ty otherTy : Ty} (like : ty.Like likeness otherTy) :
    otherTy.Like likeness.flip ty := by
  induction ty generalizing otherTy with
  | unit =>
      cases like
      exact .unit
  | bit =>
      cases like
      exact .bit
  | bits width =>
      cases like with
      | bits widths => exact .bits widths
  | var id =>
      cases like with
      | var paired => exact .var paired
  | product members ih =>
      cases like with
      | product each =>
          exact .product (forall₂_imp_of_mem each fun left inside _ => ih left inside).flip

/-- Likeness is monotone in what relates widths and variables. -/
theorem Ty.Like.imp {weaker : Likeness}
    (widths : ∀ width other, likeness.width width other → weaker.width width other)
    (vars : ∀ id partner, likeness.var id partner → weaker.var id partner) {ty : Ty} :
    ∀ {otherTy : Ty}, ty.Like likeness otherTy → ty.Like weaker otherTy := by
  induction ty with
  | unit =>
      intro otherTy like
      cases like
      exact .unit
  | bit =>
      intro otherTy like
      cases like
      exact .bit
  | bits width =>
      intro otherTy like
      cases like with
      | bits related => exact .bits (widths _ _ related)
  | var id =>
      intro otherTy like
      cases like with
      | var paired => exact .var (vars _ _ paired)
  | product members ih =>
      intro otherTy like
      cases like with
      | product each =>
          exact .product (forall₂_imp_of_mem each fun member inside _ => ih member inside)

namespace TypeStore

variable {store other next last : TypeStore} {ty otherTy head otherHead : Ty} {id partner : TyVar}

/-- The two stores have the same variables. -/
structure SameVars (store next : TypeStore) : Prop where
  owner : next.links.owner = store.links.owner
  size : next.size = store.size

theorem SameVars.refl (store : TypeStore) : SameVars store store := ⟨rfl, rfl⟩

theorem SameVars.trans {last : TypeStore} (first : SameVars store next)
    (second : SameVars next last) : SameVars store last :=
  ⟨second.owner.trans first.owner, second.size.trans first.size⟩

/-- Stores with the same variables own the same ones. -/
theorem SameVars.owns (same : SameVars store next) : next.Owns id ↔ store.Owns id := by
  rw [owns_iff, owns_iff, same.owner, same.size]

/-- Stores with the same variables have the same types over them. -/
theorem SameVars.over_iff (same : SameVars store next) : ty.Over next ↔ ty.Over store :=
  forall₂_congr fun _ _ => same.owns

/-- Shortening paths makes no variables. -/
theorem Shortened.sameVars (shortened : Shortened store next) : SameVars store next :=
  ⟨shortened.owner, shortened.size⟩

/-- An assignment makes no variables. -/
theorem Assigned.sameVars (assigned : Assigned store id ty next) : SameVars store next :=
  ⟨assigned.owner, assigned.size⟩

/-- Links lead only from variables in the store. -/
theorem Leads.owns_start (leads : store.Leads (.var id) head) : store.Owns id := by
  cases leads with
  | concrete concrete => exact (concrete id rfl).elim
  | free unlinked => exact unlinked.owns
  | follow linked _ => exact linked.owns

/-- Links from a type over a well-formed store always lead to a head. -/
theorem WellFormed.exists_leads (wellFormed : store.WellFormed) (owned : ty.Over store) :
    ∃ head, store.Leads ty head := by
  obtain ⟨head, _, _, leads, _⟩ := (representative_ends wellFormed owned).exists_ok
  exact ⟨head, leads⟩

/-- A variable in the store is a type over it. -/
theorem Owns.over_var (owned : store.Owns id) : (Ty.var id).Over store := by
  intro other inside
  rw [Ty.mem_vars_var.mp inside]
  exact owned

/-- Walks stay the same when a variable is made. -/
theorem Leads.fresh (leads : store.Leads ty head) : store.fresh.2.Leads ty head := by
  have kept : ∀ {id}, store.Owns id → store.fresh.2.links.get? id = store.links.get? id := by
    intro id owned
    rw [store.fresh_spec.2.2.2, if_neg]
    rintro rfl
    exact Nat.lt_irrefl _ (owns_iff.mp owned).2
  induction leads with
  | concrete concrete => exact .concrete concrete
  | free unlinked => exact .free ((kept unlinked.owns).trans unlinked)
  | follow linked _ ih => exact .follow ((kept linked.owns).trans linked) ih

private theorem owns_fresh : store.fresh.2.Owns id ↔
    id = ⟨store.links.owner, store.size⟩ ∨ store.Owns id := by
  rw [Owns, store.fresh_spec.2.2.2]
  by_cases newest : id = ⟨store.links.owner, store.size⟩
  · simp [newest]
  · simp [newest, Owns]

private theorem unlinked_fresh : store.fresh.2.Unlinked ⟨store.links.owner, store.size⟩ := by
  rw [Unlinked, store.fresh_spec.2.2.2, if_pos rfl]

/-- Where a variable is newly linked, walks that ended in it go on to what it is linked to. -/
theorem Assigned.leads (assigned : Assigned store id ty next) (self : store.Leads ty ty)
    (differs : ty ≠ .var id) {start : Ty} (leads : store.Leads start head) :
    next.Leads start (if head = .var id then ty else head) := by
  have tySelf : next.Leads ty ty := by
    cases self with
    | concrete concrete => exact .concrete concrete
    | @free other unlinked =>
        have other_ne : other ≠ id := fun same => differs (congrArg Ty.var same)
        apply Leads.free
        rw [Unlinked, assigned.link, if_neg other_ne]
        exact unlinked
    | follow linked rest => exact (linked.not_unlinked rest.unlinked).elim
  induction leads with
  | concrete concrete =>
      rw [if_neg (concrete id)]
      exact .concrete concrete
  | @free other unlinked =>
      by_cases same : other = id
      · subst same
        rw [if_pos rfl]
        exact .follow (assigned.linked_iff.mpr (.inl ⟨rfl, rfl⟩)) tySelf
      · rw [if_neg fun equal => same (Ty.var.inj equal)]
        apply Leads.free
        rw [Unlinked, assigned.link, if_neg same]
        exact unlinked
  | follow linked _ ih => exact .follow (assigned.linked_iff.mpr (.inr linked)) ih

namespace Like

/-- Variables that belong to one store are paired with variables of the other. -/
theorem isOver (alike : store.Like likeness other) (like : ty.Like likeness otherTy)
    (owned : ty.Over store) : otherTy.Over other := by
  induction ty generalizing otherTy with
  | unit =>
      cases like
      exact fun id inside => by cases inside
  | bit =>
      cases like
      exact fun id inside => by cases inside
  | bits width =>
      cases like
      exact fun id inside => by cases inside
  | var id =>
      cases like with
      | var paired =>
          intro partner inside
          rw [Ty.mem_vars_var.mp inside]
          exact (alike.owns paired).mp (owned id (by simp))
  | product members ih =>
      cases like with
      | product each =>
          intro partner inside
          obtain ⟨member, found, mentioned⟩ := Ty.mem_vars_product.mp inside
          have related := forall₂_imp_of_mem each fun left member right like =>
            ih left member like (owned.of_mem member)
          obtain ⟨_, memberOver⟩ := forall₂_exists_left related found
          exact memberOver partner mentioned

/-- Types that are alike lead to heads that are alike. -/
theorem exists_leads (alike : store.Like likeness other) (like : ty.Like likeness otherTy)
    (leads : store.Leads ty head) :
    ∃ otherHead, other.Leads otherTy otherHead ∧ head.Like likeness otherHead := by
  cases like with
  | var paired => exact alike.leads paired leads
  | unit =>
      obtain rfl := leads.unique (.concrete (by simp))
      exact ⟨_, .concrete (by simp), .unit⟩
  | bit =>
      obtain rfl := leads.unique (.concrete (by simp))
      exact ⟨_, .concrete (by simp), .bit⟩
  | bits widths =>
      obtain rfl := leads.unique (.concrete (by simp))
      exact ⟨_, .concrete (by simp), .bits widths⟩
  | product each =>
      obtain rfl := leads.unique (.concrete (by simp))
      exact ⟨_, .concrete (by simp), .product each⟩

/-- In stores that are alike, types that are alike have heads that are alike. -/
theorem heads (alike : store.Like likeness other) (like : ty.Like likeness otherTy)
    (leads : store.Leads ty head) (otherLeads : other.Leads otherTy otherHead) :
    head.Like likeness otherHead := by
  obtain ⟨found, foundLeads, headsAlike⟩ := alike.exists_leads like leads
  rwa [← foundLeads.unique otherLeads]

/-- Shortening links on both sides changes nothing. -/
theorem shortened (alike : store.Like likeness other) (first : Shortened store next)
    (second : Shortened other last) : next.Like likeness last where
  wellFormed := first.wellFormed alike.wellFormed
  otherWellFormed := second.wellFormed alike.otherWellFormed
  owns := fun paired => by rw [first.owns, second.owns, alike.owns paired]
  leads := by
    intro id partner head paired leads
    obtain ⟨otherHead, otherLeads, like⟩ := alike.leads paired (first.leads_iff.mp leads)
    exact ⟨otherHead, second.leads_iff.mpr otherLeads, like⟩

/-- Linking paired variables to heads that are alike keeps the stores alike. -/
theorem assigned (alike : store.Like likeness other) (paired : likeness.var id partner)
    (like : ty.Like likeness otherTy) (first : Assigned store id ty next)
    (second : Assigned other partner otherTy last) (wellFormed : next.WellFormed)
    (otherWellFormed : last.WellFormed) (self : store.Leads ty ty)
    (otherSelf : other.Leads otherTy otherTy) (differs : ty ≠ .var id)
    (otherDiffers : otherTy ≠ .var partner) : next.Like likeness last where
  wellFormed := wellFormed
  otherWellFormed := otherWellFormed
  owns := fun alsoPaired => by
    rw [first.sameVars.owns, second.sameVars.owns, alike.owns alsoPaired]
  leads := by
    intro start otherStart head startPaired leads
    have owned : store.Owns start := first.sameVars.owns.mp leads.owns_start
    obtain ⟨before, beforeLeads⟩ := alike.wellFormed.exists_leads owned.over_var
    obtain ⟨otherBefore, otherLeads, beforeLike⟩ := alike.leads startPaired beforeLeads
    obtain rfl := leads.unique (first.leads self differs beforeLeads)
    have otherLater := second.leads otherSelf otherDiffers otherLeads
    -- The walk goes on from the one variable exactly if it goes on from its partner.
    by_cases here : before = .var id
    · subst here
      cases beforeLike with
      | var alsoPaired =>
          rw [if_pos (congrArg Ty.var (likeness.unique.2 alsoPaired paired))] at otherLater
          rw [if_pos rfl]
          exact ⟨otherTy, otherLater, like⟩
    · have otherwise : otherBefore ≠ .var partner := by
        rintro rfl
        cases beforeLike with
        | var alsoPaired => exact here (congrArg Ty.var (likeness.unique.1 alsoPaired paired))
      rw [if_neg otherwise] at otherLater
      rw [if_neg here]
      exact ⟨otherBefore, otherLater, beforeLike⟩

/-- Making paired variables keeps the stores alike. -/
theorem fresh (alike : store.Like likeness other)
    (paired : likeness.var ⟨store.links.owner, store.size⟩ ⟨other.links.owner, other.size⟩) :
    store.fresh.2.Like likeness other.fresh.2 where
  wellFormed := fresh_wellFormed alike.wellFormed
  otherWellFormed := fresh_wellFormed alike.otherWellFormed
  owns := by
    intro id partner alsoPaired
    rw [owns_fresh, owns_fresh, alike.owns alsoPaired]
    apply or_congr_left
    constructor
    · rintro rfl
      exact likeness.unique.2 alsoPaired paired
    · rintro rfl
      exact likeness.unique.1 alsoPaired paired
  leads := by
    intro id partner head alsoPaired leads
    rcases owns_fresh.mp leads.owns_start with rfl | owned
    · obtain rfl := likeness.unique.2 alsoPaired paired
      obtain rfl := leads.unique (.free unlinked_fresh)
      exact ⟨_, .free unlinked_fresh, .var paired⟩
    · obtain ⟨before, beforeLeads⟩ := alike.wellFormed.exists_leads owned.over_var
      obtain rfl := leads.unique beforeLeads.fresh
      obtain ⟨otherHead, otherLeads, like⟩ := alike.leads alsoPaired beforeLeads
      exact ⟨otherHead, otherLeads.fresh, like⟩

private theorem flip (alike : store.Like likeness other) : other.Like likeness.flip store where
  wellFormed := alike.otherWellFormed
  otherWellFormed := alike.wellFormed
  owns := fun paired => (alike.owns paired).symm
  leads := by
    intro partner id otherHead paired otherLeads
    have owned : store.Owns id := (alike.owns paired).mpr otherLeads.owns_start
    obtain ⟨head, leads⟩ := alike.wellFormed.exists_leads owned.over_var
    exact ⟨head, leads, (alike.heads (.var paired) leads otherLeads).flip⟩

private theorem occurs (alike : store.Like likeness other) (paired : likeness.var id partner)
    (occurs : store.Occurs id ty) : ∀ {otherTy : Ty}, ty.Like likeness otherTy →
      other.Occurs partner otherTy := by
  induction occurs with
  | here leads =>
      intro otherTy like
      obtain ⟨otherHead, otherLeads, headLike⟩ := alike.exists_leads like leads
      cases headLike with
      | var alsoPaired =>
          rw [likeness.unique.2 alsoPaired paired] at otherLeads
          exact .here otherLeads
  | inside leads mem _ ih =>
      intro otherTy like
      obtain ⟨otherHead, otherLeads, headLike⟩ := alike.exists_leads like leads
      cases headLike with
      | product each =>
          obtain ⟨partnerMember, inOthers, memberLike⟩ := forall₂_exists_mem_right each mem
          exact .inside otherLeads inOthers (ih memberLike)

/-- In stores that are alike, paired variables occur in the same places. -/
theorem occurs_iff (alike : store.Like likeness other) (paired : likeness.var id partner)
    (like : ty.Like likeness otherTy) : store.Occurs id ty ↔ other.Occurs partner otherTy :=
  ⟨fun found => alike.occurs paired found like, fun found => alike.flip.occurs paired found like.flip⟩

/-- Types that are alike have resolved forms that are alike. -/
theorem resolves (alike : store.Like likeness other) {resolved : Ty}
    (found : store.Resolves ty resolved) : ∀ {otherTy otherResolved : Ty},
      ty.Like likeness otherTy → other.Resolves otherTy otherResolved →
        resolved.Like likeness otherResolved := by
  induction found with
  | @leaf ty head leads flat =>
      intro otherTy otherResolved like otherFound
      obtain ⟨otherHead, otherLeads, headLike⟩ := alike.exists_leads like leads
      have otherFlat : ∀ members, otherHead ≠ .product members := by
        rintro members rfl
        cases headLike with
        | product each => exact flat _ rfl
      rwa [otherFound.eq_of_leads otherLeads otherFlat]
  | @product ty members resolved leads length each ih =>
      intro otherTy otherResolved like otherFound
      obtain ⟨otherHead, otherLeads, headLike⟩ := alike.exists_leads like leads
      cases headLike with
      | @product _ others membersLike =>
          cases otherFound with
          | leaf alsoLeads flat => exact (flat _ (alsoLeads.unique otherLeads)).elim
          | product alsoLeads otherLength otherEach =>
              obtain rfl := Ty.product.inj (otherLeads.unique alsoLeads)
              have firsts := List.forall₂_iff_zip.mpr ⟨length, ih⟩
              have seconds := List.forall₂_iff_zip.mpr ⟨otherLength, otherEach⟩
              exact .product (forall₂_square membersLike firsts seconds
                fun _ _ _ _ _ memberLike first second => first memberLike second)

end Like

end TypeStore

end CircuitWidths
