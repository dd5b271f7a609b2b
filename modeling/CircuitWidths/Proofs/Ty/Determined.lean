import CircuitWidths.Proofs.Ty.Likeness

/-!
# Determined types

A type is determined if it resolves to a type without variables.  Such a type leads to the same
thing in every later store, and so do all variables in it: nothing that is found out later about
other variables has an effect on it.
-/

namespace CircuitWidths

namespace TypeStore

variable {store next later : TypeStore} {form : Static.Expr → Prop} {ty head : Ty} {id : TyVar}

/-- The type resolves to one without variables, whose widths have the form. -/
def Determines (store : TypeStore) (form : Static.Expr → Prop) (ty : Ty) : Prop :=
  ∃ resolved, store.Resolves ty resolved ∧ resolved.vars = [] ∧ ∀ width ∈ resolved.widths, form width

namespace Determines

/-- A type is determined if links lead from it to a type that is no product and no variable. -/
theorem of_leads_closed (leads : store.Leads ty head) (flat : ∀ members, head ≠ .product members)
    (closed : head.vars = []) (formed : ∀ width ∈ head.widths, form width) :
    store.Determines form ty :=
  ⟨head, .leaf leads flat, closed, formed⟩

/-- What a determined type leads to is not a variable, and is determined too. -/
theorem exists_head (determined : store.Determines form ty) :
    ∃ head, store.Leads ty head ∧ (∀ id, head ≠ .var id) ∧ store.Determines form head := by
  obtain ⟨resolved, resolves, closed, formed⟩ := determined
  cases resolves with
  | leaf leads flat =>
      refine ⟨resolved, leads, ?_, of_leads_closed leads.head_self flat closed formed⟩
      rintro id rfl
      cases closed
  | product leads length each =>
      exact ⟨_, leads, by simp, _, .product leads.head_self length each, closed, formed⟩

/-- The members of a determined product are determined. -/
theorem member {members : List Ty} (determined : store.Determines form (.product members))
    {member : Ty} (inside : member ∈ members) : store.Determines form member := by
  obtain ⟨resolved, resolves, closed, formed⟩ := determined
  have whole : store.Leads (.product members) (.product members) := .concrete (by simp)
  cases resolves with
  | leaf leads flat => exact (flat members (leads.unique whole)).elim
  | @product _ found results leads length each =>
      obtain rfl : found = members := Ty.product.inj (leads.unique whole)
      have related := List.forall₂_iff_zip.mpr ⟨length, each⟩
      obtain ⟨result, among, resolves⟩ := forall₂_exists_mem_right related inside
      refine ⟨result, resolves, ?_, fun width written => formed width ?_⟩
      · apply List.eq_nil_iff_forall_not_mem.mpr
        intro id mentioned
        have inProduct := Ty.mem_vars_product.mpr ⟨result, among, mentioned⟩
        rw [closed] at inProduct
        cases inProduct
      · exact Ty.mem_widthsAll.mpr ⟨result, among, written⟩

/-- The variables in a determined type are determined. -/
theorem vars (determined : store.Determines form ty) :
    ∀ id ∈ ty.vars, store.Determines form (.var id) := by
  induction ty with
  | unit => simp [Ty.vars]
  | bit => simp [Ty.vars]
  | bits width => simp [Ty.vars]
  | var id =>
      intro other inside
      obtain rfl := Ty.mem_vars_var.mp inside
      exact determined
  | product members ih =>
      intro id inside
      obtain ⟨member, found, mentioned⟩ := Ty.mem_vars_product.mp inside
      exact ih member found (determined.member found) id mentioned

/-- The widths in a determined type have the form that is asked for. -/
theorem widths (determined : store.Determines form ty) : ∀ width ∈ ty.widths, form width := by
  induction ty with
  | unit => simp [Ty.widths]
  | bit => simp [Ty.widths]
  | var id => simp [Ty.widths]
  | bits written =>
      obtain ⟨resolved, resolves, _, formed⟩ := determined
      rw [resolves.eq_of_leads (.concrete (by simp)) (by simp)] at formed
      exact formed
  | product members ih =>
      intro width inside
      obtain ⟨member, found, written⟩ := Ty.mem_widthsAll.mp inside
      exact ih member found (determined.member found) width written

/-- A determined type is over the store. -/
theorem owned (determined : store.Determines form ty) : ty.Over store := by
  intro id inside
  obtain ⟨head, leads, _⟩ := (determined.vars id inside).exists_head
  exact leads.owns_start

/-- A determined type is like itself, if its widths and its variables are. -/
theorem like_self {likeness : Likeness} (determined : store.Determines form ty)
    (widths : ∀ width, form width → likeness.width width width)
    (vars : ∀ id, store.Determines form (.var id) → likeness.var id id) : ty.Like likeness ty :=
  Ty.like_self (fun width inside => widths width (determined.widths width inside))
    fun id inside => vars id (determined.vars id inside)

/-- Later stores in which determined variables are paired with themselves, and which have no other
paired variables, are alike. -/
theorem stores_like {likeness : Likeness} (first : store.Precedes next)
    (second : store.Precedes later) (wellFormed : next.WellFormed)
    (otherWellFormed : later.WellFormed)
    (widths : ∀ width, form width → likeness.width width width)
    (vars : ∀ id, store.Determines form (.var id) → likeness.var id id)
    (paired : ∀ id partner, likeness.var id partner →
      (id = partner ∧ store.Determines form (.var id)) ∨ (¬ next.Owns id ∧ ¬ later.Owns partner)) :
    next.Like likeness later where
  wellFormed := wellFormed
  otherWellFormed := otherWellFormed
  owns := by
    intro id partner related
    rcases paired id partner related with ⟨rfl, determined⟩ | ⟨absent, otherAbsent⟩
    · have owned := determined.owned id (by simp)
      exact iff_of_true (first.owns owned) (second.owns owned)
    · exact iff_of_false absent otherAbsent
  leads := by
    intro id partner head related leads
    rcases paired id partner related with ⟨rfl, determined⟩ | ⟨absent, _⟩
    · obtain ⟨found, foundLeads, concrete, headDetermined⟩ := determined.exists_head
      obtain rfl := leads.unique (first.leads concrete foundLeads)
      exact ⟨head, second.leads concrete foundLeads, headDetermined.like_self widths vars⟩
    · exact (absent leads.owns_start).elim

end Determines

end TypeStore

end CircuitWidths
