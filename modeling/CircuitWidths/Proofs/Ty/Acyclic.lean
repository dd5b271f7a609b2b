import CircuitWidths.Proofs.Ty.Links
import Mathlib.Data.Finset.Card

/-!
# Links without cycles

A store is well formed when its links stay inside the store and never lead back to where they
started.  That they do not is witnessed by a rank of the variables that every link lowers, also
through the members of products.  Ranks can be chosen below the number of variables
(`WellFormed.exists_rank`), so a walk of that many links finds the head of every type, and every
choice for the variables without a link extends to a model of all links.
-/

namespace CircuitWidths

namespace TypeStore

/-- Every link goes to variables of lower rank. -/
def Ranked (store : TypeStore) (rank : TyVar → Nat) : Prop :=
  ∀ id ty, store.Linked id ty → ∀ other ∈ ty.vars, rank other < rank id

/-- Links stay inside the store and have no cycle. -/
structure WellFormed (store : TypeStore) : Prop where
  closed : ∀ id ty, store.Linked id ty → ty.Over store
  acyclic : ∃ rank, store.Ranked rank

variable {store next : TypeStore} {id : TyVar} {ty head : Ty} {model : Model}
  {rank : TyVar → Nat}

/-- A store without variables is well formed. -/
theorem empty_wellFormed (owner : Nat) : (empty owner).WellFormed := by
  have unowned : ∀ id ty, ¬ (empty owner).Linked id ty := by
    intro id ty linked
    exact absurd (owns_iff.mp linked.owns).2 (Nat.not_lt_zero _)
  exact ⟨fun id ty linked => (unowned id ty linked).elim,
    fun _ => 0, fun id ty linked => (unowned id ty linked).elim⟩

/-- Counting the variables of lower rank ranks the variables below their number. -/
theorem WellFormed.exists_rank (wellFormed : store.WellFormed) :
    ∃ rank, store.Ranked rank ∧ ∀ id, store.Owns id → rank id < store.size := by
  obtain ⟨rank, ranked⟩ := wellFormed.acyclic
  let lower : TyVar → Finset Nat := fun id =>
    (Finset.range store.size).filter fun index => rank ⟨store.links.owner, index⟩ < rank id
  have self : ∀ id, store.Owns id → (⟨store.links.owner, id.index⟩ : TyVar) = id := by
    intro id owned
    rw [← (owns_iff.mp owned).1]
  refine ⟨fun id => (lower id).card, fun id ty linked other inside => ?_, fun id owned => ?_⟩
  · have less := ranked id ty linked other inside
    have owned := wellFormed.closed id ty linked other inside
    apply Finset.card_lt_card
    refine Finset.ssubset_iff_subset_ne.mpr ⟨fun index member => ?_, fun same => ?_⟩
    · rw [Finset.mem_filter] at member ⊢
      exact ⟨member.1, member.2.trans less⟩
    · have member : other.index ∈ lower id := by
        rw [Finset.mem_filter, self other owned]
        exact ⟨Finset.mem_range.mpr (owns_iff.mp owned).2, less⟩
      rw [← same, Finset.mem_filter, self other owned] at member
      exact Nat.lt_irrefl _ member.2
  · have proper : lower id ⊂ Finset.range store.size := by
      refine Finset.ssubset_iff_subset_ne.mpr ⟨Finset.filter_subset _ _, fun same => ?_⟩
      have member := Finset.mem_range.mpr (owns_iff.mp owned).2
      rw [← same, Finset.mem_filter, self id owned] at member
      exact Nat.lt_irrefl _ member.2
    simpa using Finset.card_lt_card proper

namespace Leads

/-- The variables of a head have lower rank than a linked variable that leads to it. -/
theorem rank_lt (leads : store.Leads (.var id) head) (linked : store.Linked id ty)
    (ranked : store.Ranked rank) : ∀ other ∈ head.vars, rank other < rank id := by
  have bounded : ∀ {start finish : Ty}, store.Leads start finish → ∀ {bound : Nat},
      (∀ other ∈ start.vars, rank other < bound) → ∀ other ∈ finish.vars, rank other < bound := by
    intro start finish walk
    induction walk with
    | concrete _ => exact fun below => below
    | free _ => exact fun below => below
    | @follow passed after _ stepLinked _ ih =>
        intro bound below
        apply ih
        intro other inside
        exact (ranked passed after stepLinked other inside).trans (below passed (by simp))
  cases leads with
  | concrete concrete => exact (concrete id rfl).elim
  | free unlinked => exact (linked.not_unlinked unlinked).elim
  | follow alsoLinked rest => exact bounded rest (ranked id _ alsoLinked)

/-- Walks stay inside a well-formed store. -/
theorem owned (leads : store.Leads ty head) (wellFormed : store.WellFormed)
    (owned : ty.Over store) : head.Over store := by
  induction leads with
  | concrete _ => exact owned
  | free _ => exact owned
  | follow linked _ ih => exact ih (wellFormed.closed _ _ linked)

end Leads

private theorem Shortened.ranked (shortened : Shortened store next) (ranked : store.Ranked rank) :
    next.Ranked rank := by
  intro id ty linked
  rcases shortened.link id with same | ⟨old, head, oldLinked, leads, replaced⟩
  · exact ranked id ty (by rw [Linked, ← same]; exact linked)
  · obtain rfl := linked.unique replaced
    exact leads.rank_lt oldLinked ranked

/-- Shortening paths does not change which types are over the store. -/
theorem Shortened.over_iff (shortened : Shortened store next) : ty.Over next ↔ ty.Over store :=
  forall₂_congr fun _ _ => shortened.owns

/-- Shortening paths keeps a store well formed. -/
theorem Shortened.wellFormed (shortened : Shortened store next) (wellFormed : store.WellFormed) :
    next.WellFormed := by
  obtain ⟨rank, ranked⟩ := wellFormed.acyclic
  refine ⟨fun id ty linked => shortened.over_iff.mpr ?_, rank, shortened.ranked ranked⟩
  rcases shortened.link id with same | ⟨old, head, oldLinked, leads, replaced⟩
  · exact wellFormed.closed id ty (by rw [Linked, ← same]; exact linked)
  · obtain rfl := linked.unique replaced
    refine leads.owned wellFormed ?_
    intro other same
    rw [Ty.mem_vars_var.mp same]
    exact oldLinked.owns

/-! ## Looking up heads -/

/-- Rewriting the link of a variable to the head that it leads to shortens links. -/
theorem relink_ends {middle : TypeStore} (shortened : Shortened store middle)
    (linked : store.Linked id ty) (leads : store.Leads (.var id) head) :
    Ends (relink id head) middle (fun _ next => Shortened store next) Never := by
  have owned : (middle.links.set? id (some head)).isSome = true := by
    rw [Slots.set?_isSome_iff]
    exact shortened.owns.mpr linked.owns
  obtain ⟨links, replaced⟩ := Option.isSome_iff_exists.mp owned
  have run : relink id head middle = .ok () ⟨links⟩ := by
    rw [relink, replaced]
  refine .of_ok run ⟨(Slots.size_of_set? replaced).1.trans shortened.owner,
    (Slots.size_of_set? replaced).2.trans shortened.size, fun other => ?_⟩
  have found := Slots.get?_of_set? replaced other
  by_cases same : other = id
  · subst same
    exact .inr ⟨ty, head, linked, leads, by rw [Linked, found, if_pos rfl]⟩
  · rw [if_neg same] at found
    rcases shortened.link other with kept | ⟨old, otherHead, oldLinked, otherLeads, written⟩
    · exact .inl (found.trans kept)
    · exact .inr ⟨old, otherHead, oldLinked, otherLeads, by rw [Linked, found]; exact written⟩

/-- A walk whose limit exceeds the rank of its start finds the head. -/
theorem representativeWithin_ends (wellFormed : store.WellFormed) (ranked : store.Ranked rank) :
    ∀ (limit : Nat) (ty : Ty), ty.Over store → (∀ id ∈ ty.vars, rank id < limit) →
      Ends (representativeWithin limit ty) store
        (fun head next => store.Leads ty head ∧ Shortened store next) Never := by
  intro limit
  induction limit with
  | zero =>
      intro ty owned below
      cases ty with
      | var id => exact absurd (below id (by simp)) (Nat.not_lt_zero _)
      | unit | bit | bits _ | product _ => exact ⟨.concrete (by simp), .refl store⟩
  | succ limit ih =>
      intro ty owned below
      cases ty with
      | unit | bit | bits _ | product _ => exact ⟨.concrete (by simp), .refl store⟩
      | var id =>
          have owned := owned id (by simp)
          rw [representativeWithin]
          rcases owned.cases with unlinked | ⟨following, linked⟩
          · have found : link id store = .ok none store := by rw [link, unlinked]
            exact .after found (.pure ⟨.free unlinked, .refl _⟩)
          · have found : link id store = .ok (some following) store := by rw [link, linked]
            have lower : ∀ other ∈ following.vars, rank other < limit := by
              intro other inside
              have less := ranked id following linked other inside
              have bound := below id (by simp)
              omega
            refine .after found (.bind (ih following (wellFormed.closed id following linked) lower)
              fun head middle ⟨leads, shortened⟩ => ?_)
            have leadsFromId : store.Leads (.var id) head := .follow linked leads
            exact .bind (relink_ends shortened linked leadsFromId) fun _ last done =>
              .pure ⟨leadsFromId, done⟩

/-- Looking up the head of a type over the store never fails. -/
theorem representative_ends (wellFormed : store.WellFormed) (owned : ty.Over store) :
    Ends (representative ty) store
      (fun head next => store.Leads ty head ∧ Shortened store next) Never := by
  obtain ⟨rank, ranked, bounded⟩ := wellFormed.exists_rank
  refine .after rfl (representativeWithin_ends wellFormed ranked _ _ owned ?_)
  intro id inside
  exact (bounded id (owned id inside)).trans (Nat.lt_succ_self _)

/-! ## Models of links -/

/-- What variables stand for when links are followed `steps` times and then given up. -/
def unrolled (store : TypeStore) (model : Model) : Nat → TyVar → GroundTy
  | 0, id => model.grounds id
  | steps + 1, id =>
    match store.links.get? id with
    | some (some ty) => ty.denote { model with grounds := unrolled store model steps }
    | _ => model.grounds id

private theorem unrolled_of_unlinked (unlinked : store.Unlinked id) (steps : Nat) :
    store.unrolled model steps id = model.grounds id := by
  cases steps with
  | zero => rfl
  | succ steps => rw [unrolled, unlinked]

private theorem unrolled_of_linked (linked : store.Linked id ty) (steps : Nat) :
    store.unrolled model (steps + 1) id =
      ty.denote { model with grounds := store.unrolled model steps } := by
  rw [unrolled, linked]

/-- Following more links than the rank of a variable changes nothing for it. -/
theorem unrolled_stable (model : Model) (wellFormed : store.WellFormed) (ranked : store.Ranked rank) :
    ∀ (steps : Nat) (id : TyVar), store.Owns id → rank id < steps →
      store.unrolled model (steps + 1) id = store.unrolled model steps id := by
  intro steps
  induction steps with
  | zero => exact fun id _ below => absurd below (Nat.not_lt_zero _)
  | succ steps ih =>
      intro id owned below
      rcases owned.cases with unlinked | ⟨ty, linked⟩
      · rw [unrolled_of_unlinked unlinked, unrolled_of_unlinked unlinked]
      · rw [unrolled_of_linked linked, unrolled_of_linked linked]
        apply Ty.denote_congr
        · intro other inside
          have less := ranked id ty linked other inside
          exact ih other (wellFormed.closed id ty linked other inside) (by omega)
        · exact fun _ _ => rfl

/-- Any choice for the variables without a link extends to a model of all links. -/
theorem WellFormed.exists_respects (wellFormed : store.WellFormed) (model : Model) :
    ∃ grounds, ({ model with grounds := grounds } : Model).Respects store ∧
      ∀ id, (∀ ty, ¬ store.Linked id ty) → grounds id = model.grounds id := by
  obtain ⟨rank, ranked, bounded⟩ := wellFormed.exists_rank
  refine ⟨store.unrolled model store.size, fun id ty linked => ?_, fun id free => ?_⟩
  · have stable := unrolled_stable model wellFormed ranked store.size id linked.owns
      (bounded id linked.owns)
    rw [← unrolled_of_linked linked, stable]
  · cases store.size with
    | zero => rfl
    | succ steps =>
        rw [unrolled]
        split
        · rename_i ty linked
          exact (free ty linked).elim
        · rfl

end TypeStore

end CircuitWidths
