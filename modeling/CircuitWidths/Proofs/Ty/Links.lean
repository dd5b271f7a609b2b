import CircuitWidths.Proofs.Outcome
import CircuitWidths.Proofs.Ty.Ground
import CircuitWidths.Ty.Store

/-!
# Links

Following the links of a type store from a type ends in a head: a type that is not a variable, or
a variable without a link.  The walk that looks a head up rewrites links on the way, but only to
the head that they lead to anyway (`Shortened`).  So it changes no head, and the models of the
links stay the same.
-/

namespace CircuitWidths

namespace TypeStore

/-- The variable was made by the store. -/
def Owns (store : TypeStore) (id : TyVar) : Prop := (store.links.get? id).isSome = true

/-- The variable has a link to the type. -/
def Linked (store : TypeStore) (id : TyVar) (ty : Ty) : Prop :=
  store.links.get? id = some (some ty)

/-- The variable was made by the store and has no link. -/
def Unlinked (store : TypeStore) (id : TyVar) : Prop := store.links.get? id = some none

/-- Following links from the first type ends in the second. -/
inductive Leads (store : TypeStore) : Ty → Ty → Prop
  | concrete {ty : Ty} (concrete : ∀ id, ty ≠ .var id) : Leads store ty ty
  | free {id : TyVar} (unlinked : store.Unlinked id) : Leads store (.var id) (.var id)
  | follow {id : TyVar} {next head : Ty} (linked : store.Linked id next)
      (rest : Leads store next head) : Leads store (.var id) head

end TypeStore

/-- All type variables of the type were made by the store. -/
def Ty.Over (store : TypeStore) (ty : Ty) : Prop := ∀ id ∈ ty.vars, store.Owns id

/-- Linked variables stand for what their links denote. -/
def Model.Respects (model : Model) (store : TypeStore) : Prop :=
  ∀ id ty, store.Linked id ty → model.grounds id = ty.denote model

namespace TypeStore

variable {store next : TypeStore} {id : TyVar} {ty head : Ty} {model : Model}

/-- A store owns the variables that name its owner and have an index below its size. -/
theorem owns_iff : store.Owns id ↔ id.owner = store.links.owner ∧ id.index < store.size :=
  store.links.get?_isSome_iff id

/-- Variables with a link are in the store. -/
theorem Linked.owns (linked : store.Linked id ty) : store.Owns id := by
  rw [Owns, linked]
  rfl

/-- Variables without a link are in the store. -/
theorem Unlinked.owns (unlinked : store.Unlinked id) : store.Owns id := by
  rw [Owns, unlinked]
  rfl

/-- A variable of the store has a link or none. -/
theorem Owns.cases (owned : store.Owns id) : store.Unlinked id ∨ ∃ ty, store.Linked id ty := by
  obtain ⟨link, found⟩ := Option.isSome_iff_exists.mp owned
  cases link with
  | none => exact .inl found
  | some ty => exact .inr ⟨ty, found⟩

/-- A variable has one link at most. -/
theorem Linked.unique {other : Ty} (linked : store.Linked id ty)
    (alsoLinked : store.Linked id other) : ty = other :=
  Option.some.inj (Option.some.inj (linked.symm.trans alsoLinked))

/-- A variable has a link or has none. -/
theorem Linked.not_unlinked (linked : store.Linked id ty) : ¬ store.Unlinked id := by
  intro unlinked
  have same := linked.symm.trans unlinked
  cases same

namespace Leads

/-- A head leads to itself. -/
theorem head_self (leads : store.Leads ty head) : store.Leads head head := by
  induction leads with
  | concrete concrete => exact .concrete concrete
  | free unlinked => exact .free unlinked
  | follow linked rest ih => exact ih

/-- There is only one head. -/
theorem unique {other : Ty} (leads : store.Leads ty head) (alsoLeads : store.Leads ty other) :
    head = other := by
  induction leads with
  | concrete concrete =>
      cases alsoLeads with
      | concrete _ => rfl
      | free _ => rfl
      | follow _ _ => exact (concrete _ rfl).elim
  | free unlinked =>
      cases alsoLeads with
      | concrete _ => rfl
      | free _ => rfl
      | follow linked _ => exact (linked.not_unlinked unlinked).elim
  | follow linked rest ih =>
      cases alsoLeads with
      | concrete concrete => exact (concrete _ rfl).elim
      | free unlinked => exact (linked.not_unlinked unlinked).elim
      | follow alsoLinked alsoRest =>
          obtain rfl := linked.unique alsoLinked
          exact ih alsoRest

/-- A head that is a variable has no link. -/
theorem unlinked (leads : store.Leads ty (.var id)) : store.Unlinked id := by
  generalize same : Ty.var id = head at leads
  induction leads with
  | concrete concrete => exact (concrete id same.symm).elim
  | free unlinked =>
      obtain rfl := Ty.var.inj same
      exact unlinked
  | follow _ _ ih => exact ih same

/-- A type and its head denote the same ground type. -/
theorem denote_eq (leads : store.Leads ty head) (respects : model.Respects store) :
    ty.denote model = head.denote model := by
  induction leads with
  | concrete _ => rfl
  | free _ => rfl
  | follow linked _ ih => exact (respects _ _ linked).trans ih

/-- A head is the type itself, or a variable, or what some variable is linked to. -/
theorem head_cases (leads : store.Leads ty head) :
    ty = head ∨ (∃ other, head = .var other) ∨ ∃ other, store.Linked other head := by
  induction leads with
  | concrete _ => exact .inl rfl
  | free _ => exact .inl rfl
  | follow linked _ ih =>
      rcases ih with rfl | found
      · exact .inr (.inr ⟨_, linked⟩)
      · exact .inr found

end Leads

/-! ## Shortened links -/

/-- Some links were replaced by the heads that they lead to. -/
structure Shortened (store next : TypeStore) : Prop where
  owner : next.links.owner = store.links.owner
  size : next.size = store.size
  link : ∀ id, next.links.get? id = store.links.get? id ∨
    ∃ old head, store.Linked id old ∧ store.Leads (.var id) head ∧ next.Linked id head

namespace Shortened

theorem refl (store : TypeStore) : Shortened store store := ⟨rfl, rfl, fun _ => .inl rfl⟩

/-- Shortening paths does not change which variables there are. -/
theorem owns (shortened : Shortened store next) : next.Owns id ↔ store.Owns id := by
  rw [owns_iff, owns_iff, shortened.owner, shortened.size]

/-- Shortening paths does not change which variables have no link. -/
theorem unlinked (shortened : Shortened store next) : next.Unlinked id ↔ store.Unlinked id := by
  rcases shortened.link id with same | ⟨old, head, linked, leads, replaced⟩
  · rw [Unlinked, Unlinked, same]
  · exact ⟨fun free => (replaced.not_unlinked free).elim,
      fun free => (linked.not_unlinked free).elim⟩

/-- Every head stays a head. -/
theorem leads_of_leads (shortened : Shortened store next) (leads : store.Leads ty head) :
    next.Leads ty head := by
  induction leads with
  | concrete concrete => exact .concrete concrete
  | free unlinked => exact .free (shortened.unlinked.mpr unlinked)
  | @follow id after head linked rest ih =>
      rcases shortened.link id with same | ⟨_, found, _, leads, replaced⟩
      · exact .follow (by rw [Linked, same]; exact linked) ih
      · -- The new link goes straight to the head, which leads to itself as before.
        obtain rfl := leads.unique (.follow linked rest)
        refine .follow replaced ?_
        cases found with
        | var other => exact .free (shortened.unlinked.mpr rest.unlinked)
        | unit | bit | bits _ | product _ => exact .concrete (by simp)

/-- The walk finds the same heads before and after. -/
theorem leads_iff (shortened : Shortened store next) : next.Leads ty head ↔ store.Leads ty head := by
  refine ⟨fun leads => ?_, shortened.leads_of_leads⟩
  induction leads with
  | concrete concrete => exact .concrete concrete
  | free unlinked => exact .free (shortened.unlinked.mp unlinked)
  | @follow id after head linked rest ih =>
      rcases shortened.link id with same | ⟨old, found, _, leads, replaced⟩
      · exact .follow (by rw [Linked, ← same]; exact linked) ih
      · obtain rfl := linked.unique replaced
        obtain rfl := leads.head_self.unique ih
        exact leads

theorem trans {last : TypeStore} (earlier : Shortened store next) (later : Shortened next last) :
    Shortened store last := by
  refine ⟨later.owner.trans earlier.owner, later.size.trans earlier.size, fun id => ?_⟩
  rcases later.link id with same | ⟨old, head, linked, leads, replaced⟩
  · rcases earlier.link id with alsoSame | ⟨old, head, linked, leads, replaced⟩
    · exact .inl (same.trans alsoSame)
    · exact .inr ⟨old, head, linked, leads, by rw [Linked, same]; exact replaced⟩
  · have leadsBefore := earlier.leads_iff.mp leads
    rcases earlier.link id with same | ⟨oldest, _, oldestLinked, _, _⟩
    · exact .inr ⟨old, head, by rw [Linked, ← same]; exact linked, leadsBefore, replaced⟩
    · exact .inr ⟨oldest, head, oldestLinked, leadsBefore, replaced⟩

/-- Shortening links changes nothing for the models of the links. -/
theorem respects_iff (shortened : Shortened store next) :
    model.Respects next ↔ model.Respects store := by
  constructor
  · intro respects id ty linked
    rcases shortened.link id with same | ⟨old, head, oldLinked, leads, replaced⟩
    · exact respects id ty (by rw [Linked, same]; exact linked)
    · -- What the old link leads to has not changed, and the new link is respected.
      cases leads with
      | concrete concrete => exact (concrete id rfl).elim
      | free unlinked => exact (linked.not_unlinked unlinked).elim
      | follow alsoLinked rest =>
          obtain rfl := linked.unique alsoLinked
          rw [respects id head replaced, (shortened.leads_of_leads rest).denote_eq respects]
  · intro respects id ty linked
    rcases shortened.link id with same | ⟨old, head, oldLinked, leads, replaced⟩
    · exact respects id ty (by rw [Linked, ← same]; exact linked)
    · obtain rfl := linked.unique replaced
      exact leads.denote_eq respects

end Shortened

end TypeStore

end CircuitWidths
