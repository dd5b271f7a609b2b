import CircuitWidths.Proofs.Related
import CircuitWidths.Proofs.Ty.Acyclic

/-!
# Resolved forms

Following links everywhere in a type gives its resolved form.  In a well-formed store products
nest at most `unfoldLimit` levels deep once all links are followed (`WellFormed.fits`), so
resolving a type and searching it for a variable never give up.  A resolved form denotes what the
type denotes, and a variable inside a product stands for a smaller ground type than the product.
-/

namespace CircuitWidths

namespace Ty

/-- No member is deeper than all of them together. -/
theorem depth_le_depthAll {ty : Ty} {tys : List Ty} (member : ty ∈ tys) :
    ty.depth ≤ depthAll tys := by
  induction tys with
  | nil => cases member
  | cons head tail ih =>
      rw [depthAll]
      rcases List.mem_cons.mp member with rfl | inTail
      · exact Nat.le_max_left _ _
      · exact (ih inTail).trans (Nat.le_max_right _ _)

/-- A product is deeper than its members. -/
theorem depth_lt_of_mem {ty : Ty} {members : List Ty} (member : ty ∈ members) :
    ty.depth < (Ty.product members).depth := by
  rw [depth]
  exact Nat.lt_succ_of_le (depth_le_depthAll member)

/-- The members of a product over the store are over the store. -/
theorem Over.of_mem {store : TypeStore} {ty : Ty} {members : List Ty}
    (owned : (Ty.product members).Over store) (member : ty ∈ members) : ty.Over store :=
  fun id inside => owned id (mem_vars_product.mpr ⟨ty, member, inside⟩)

end Ty

namespace TypeStore

variable {store next : TypeStore} {id : TyVar} {ty head : Ty} {members : List Ty} {model : Model}
  {rank : TyVar → Nat} {bound : Nat}

/-! ## Depth -/

/-- With all links followed, products in the type nest less than `levels` deep. -/
def Fits (store : TypeStore) : Nat → Ty → Prop
  | 0, _ => False
  | levels + 1, ty => ∀ members, store.Leads ty (.product members) →
      ∀ member ∈ members, Fits store levels member

/-- No link goes to a type that is written deeper than the bound. -/
def Shallow (store : TypeStore) (bound : Nat) : Prop :=
  ∀ id ty, store.Linked id ty → ty.depth ≤ bound

/-- No link is to a type deeper than the depth that is computed. -/
theorem shallow_linkDepth (store : TypeStore) : store.Shallow store.linkDepth := by
  intro id ty linked
  apply Ty.depth_le_depthAll
  have cell : store.links.values[id.index]? = some (some ty) := by
    rw [Linked, Slots.get?] at linked
    split at linked
    · exact linked
    · cases linked
  have member : some ty ∈ store.links.values.toList :=
    Array.mem_toList_iff.mpr (Array.mem_of_getElem? cell)
  exact List.mem_filterMap.mpr ⟨some ty, member, rfl⟩

/-- A store that is shallow for a bound is so for every greater one. -/
theorem Shallow.mono {deeper : Nat} (shallow : store.Shallow bound) (le : bound ≤ deeper) :
    store.Shallow deeper :=
  fun id ty linked => (shallow id ty linked).trans le

/-- Links lead to no deeper types in a shallow store. -/
theorem Leads.depth_le (leads : store.Leads ty head) (shallow : store.Shallow bound)
    (depth : ty.depth ≤ bound) : head.depth ≤ bound := by
  rcases leads.head_cases with rfl | ⟨other, rfl⟩ | ⟨other, linked⟩
  · exact depth
  · exact Nat.zero_le _
  · exact shallow other head linked

/-- Shortening paths keeps a store shallow. -/
theorem Shortened.shallow (shortened : Shortened store next) (shallow : store.Shallow bound) :
    next.Shallow bound := by
  intro id ty linked
  rcases shortened.link id with same | ⟨old, head, oldLinked, leads, replaced⟩
  · exact shallow id ty (by rw [Linked, ← same]; exact linked)
  · obtain rfl := linked.unique replaced
    exact leads.depth_le shallow (Nat.zero_le _)

/-- A step into a linked variable costs at most `bound` levels and one rank. -/
theorem fits_of_rank (ranked : store.Ranked rank) (shallow : store.Shallow bound) :
    ∀ (levels limit : Nat) (ty : Ty), (∀ id ∈ ty.vars, rank id < limit) →
      limit * bound + ty.depth < levels → store.Fits levels ty := by
  intro levels
  induction levels with
  | zero => exact fun limit ty _ room => absurd room (Nat.not_lt_zero _)
  | succ levels ih =>
      intro limit ty below room members leads member inside
      have shallower := Ty.depth_lt_of_mem inside
      cases leads with
      | concrete _ =>
          apply ih limit member
          · exact fun id mentioned => below id (Ty.mem_vars_product.mpr ⟨member, inside, mentioned⟩)
          · omega
      | @follow id after _ linked rest =>
          have whole : store.Leads (.var id) (.product members) := .follow linked rest
          have headDepth := whole.depth_le shallow (Nat.zero_le _)
          have lower := whole.rank_lt linked ranked
          apply ih (rank id) member
          · exact fun other mentioned =>
              lower other (Ty.mem_vars_product.mpr ⟨member, inside, mentioned⟩)
          · have idBelow : rank id + 1 ≤ limit := below id (by simp)
            have scaled := Nat.mul_le_mul_right bound idBelow
            rw [Nat.add_mul, Nat.one_mul] at scaled
            omega

/-- The limit that is computed for a walk is never reached. -/
theorem WellFormed.fits (wellFormed : store.WellFormed) (shallow : store.Shallow bound)
    (owned : ty.Over store) (depth : ty.depth ≤ bound) :
    store.Fits ((store.size + 1) * bound + 1) ty := by
  obtain ⟨rank, ranked, bounded⟩ := wellFormed.exists_rank
  apply fits_of_rank ranked shallow _ store.size
  · exact fun id inside => bounded id (owned id inside)
  · rw [Nat.add_mul, Nat.one_mul]
    omega

private theorem WellFormed.fits_unfoldLimit (wellFormed : store.WellFormed) (owned : ty.Over store)
    {tys : List Ty} (member : ty ∈ tys) : store.Fits (store.unfoldLimit tys) ty :=
  wellFormed.fits ((shallow_linkDepth store).mono (Nat.le_max_left _ _)) owned
    ((Ty.depth_le_depthAll member).trans (Nat.le_max_right _ _))

/-! ## Resolving -/

/-- The second type is the first one with all links followed. -/
inductive Resolves (store : TypeStore) : Ty → Ty → Prop
  | leaf {ty head : Ty} (leads : store.Leads ty head)
      (flat : ∀ members, head ≠ .product members) : Resolves store ty head
  | product {ty : Ty} {members resolved : List Ty} (leads : store.Leads ty (.product members))
      (length : members.length = resolved.length)
      (each : ∀ {member result : Ty}, (member, result) ∈ members.zip resolved →
        Resolves store member result) : Resolves store ty (.product resolved)

/-- A type and its resolved form stand for the same in every model of the links. -/
theorem Resolves.denote_eq {resolved : Ty} (resolves : store.Resolves ty resolved)
    (respects : model.Respects store) : ty.denote model = resolved.denote model := by
  induction resolves with
  | leaf leads _ => exact leads.denote_eq respects
  | product leads length each ih =>
      rw [leads.denote_eq respects, Ty.denote_product, Ty.denote_product,
        map_eq_map_of_forall₂ (List.forall₂_iff_zip.mpr ⟨length, ih⟩) fun _ _ same => same]

/-- A type that leads to something flat resolves to just that. -/
theorem Resolves.eq_of_leads {resolved : Ty} (resolves : store.Resolves ty resolved)
    (leads : store.Leads ty head) (flat : ∀ members, head ≠ .product members) :
    resolved = head := by
  cases resolves with
  | leaf found _ => exact found.unique leads
  | product found _ _ => exact (flat _ (leads.unique found)).elim

/-- There is only one resolved form. -/
theorem Resolves.unique {resolved other : Ty} (resolves : store.Resolves ty resolved)
    (alsoResolves : store.Resolves ty other) : resolved = other := by
  induction resolves generalizing other with
  | leaf leads flat => exact (alsoResolves.eq_of_leads leads flat).symm
  | @product ty members resolved leads length _ ih =>
      cases alsoResolves with
      | leaf alsoLeads flat => exact (flat _ (alsoLeads.unique leads)).elim
      | @product _ _ others alsoLeads otherLength otherEach =>
          obtain rfl := Ty.product.inj (leads.unique alsoLeads)
          have firsts := List.forall₂_iff_zip.mpr ⟨length, ih⟩
          have seconds := List.forall₂_iff_zip.mpr ⟨otherLength, otherEach⟩
          have diagonal : List.Forall₂ Eq members members := List.forall₂_same.mpr fun _ _ => rfl
          have same : List.Forall₂ Eq resolved others := by
            apply forall₂_square diagonal firsts seconds
            rintro member _ _ _ _ rfl first second
            exact first second
          rw [List.forall₂_eq_eq_eq] at same
          rw [same]

/-- Shortening links changes no resolved form. -/
theorem Shortened.resolves (shortened : Shortened store next) {resolved : Ty}
    (resolves : next.Resolves ty resolved) : store.Resolves ty resolved := by
  induction resolves with
  | leaf leads flat => exact .leaf (shortened.leads_iff.mp leads) flat
  | product leads length _ ih => exact .product (shortened.leads_iff.mp leads) length ih

/-- The resolved form of a type over the store is over it. -/
theorem Resolves.owned {resolved : Ty} (resolves : store.Resolves ty resolved)
    (wellFormed : store.WellFormed) (owned : ty.Over store) : resolved.Over store := by
  induction resolves with
  | leaf leads _ => exact leads.owned wellFormed owned
  | @product ty members resolved leads length _ ih =>
      intro id inside
      obtain ⟨result, member, mentioned⟩ := Ty.mem_vars_product.mp inside
      have each := List.forall₂_iff_zip.mpr ⟨length, ih⟩
      have membersOver := leads.owned wellFormed owned
      obtain ⟨start, isMember, resultOver⟩ := forall₂_exists_mem_right each.flip member
      exact resultOver (membersOver.of_mem isMember) id mentioned

private theorem resolveWithin_ends (wellFormed : store.WellFormed) :
    ∀ (levels : Nat) (ty : Ty) (current : TypeStore), Shortened store current → ty.Over store →
      store.Fits levels ty → Ends (resolveWithin levels ty) current
        (fun resolved next => Shortened store next ∧ store.Resolves ty resolved) Never := by
  intro levels
  induction levels with
  | zero => exact fun ty current _ _ impossible => impossible.elim
  | succ levels ih =>
      intro ty current shortened owned fits
      rw [resolveWithin]
      refine .bind (representative_ends (shortened.wellFormed wellFormed)
        (shortened.over_iff.mpr owned)) fun head next ⟨leadsNow, walked⟩ => ?_
      have leads := shortened.leads_iff.mp leadsNow
      have shortenedNext := shortened.trans walked
      cases head with
      | unit | bit | bits _ | var _ => exact .pure ⟨shortenedNext, .leaf leads (by simp)⟩
      | product members =>
          have membersOver := leads.owned wellFormed owned
          refine .bind (.mapM (fun member inside current shortened =>
            ih member current shortened (membersOver.of_mem inside)
              (fits members leads member inside)) next shortenedNext)
            fun results last ⟨shortened, allResolve⟩ => ?_
          obtain ⟨length, each⟩ := List.forall₂_iff_zip.mp allResolve
          exact .pure ⟨shortened, .product leads length each⟩

/-- Resolving a type over the store never fails. -/
theorem resolve_ends (wellFormed : store.WellFormed) (owned : ty.Over store) :
    Ends (resolve ty) store
      (fun resolved next => Shortened store next ∧ store.Resolves ty resolved) Never :=
  .after rfl (resolveWithin_ends wellFormed _ ty store (.refl store) owned
    (wellFormed.fits_unfoldLimit owned List.mem_cons_self))

/-- Substitution always succeeds; it works on the resolved form. -/
theorem substitute_ends (bindings : Bindings Static.Expr) (wellFormed : store.WellFormed)
    (owned : ty.Over store) : Ends (substitute bindings ty) store
      (fun result next => Shortened store next ∧
        ∃ resolved, store.Resolves ty resolved ∧ result = resolved.substitute bindings) Never :=
  .bind (resolve_ends wellFormed owned) fun resolved _ ⟨shortened, resolves⟩ =>
    .pure ⟨shortened, resolved, resolves, rfl⟩

/-! ## Searching for a variable -/

/-- The variable stands in the type once all links are followed. -/
inductive Occurs (store : TypeStore) (id : TyVar) : Ty → Prop
  | here {ty : Ty} (leads : store.Leads ty (.var id)) : Occurs store id ty
  | inside {ty member : Ty} {members : List Ty} (leads : store.Leads ty (.product members))
      (mem : member ∈ members) (occurs : Occurs store id member) : Occurs store id ty

/-- Shortening paths does not change where variables occur. -/
theorem Shortened.occurs_iff (shortened : Shortened store next) :
    next.Occurs id ty ↔ store.Occurs id ty := by
  constructor
  · intro occurs
    induction occurs with
    | here leads => exact .here (shortened.leads_iff.mp leads)
    | inside leads mem _ ih => exact .inside (shortened.leads_iff.mp leads) mem ih
  · intro occurs
    induction occurs with
    | here leads => exact .here (shortened.leads_iff.mpr leads)
    | inside leads mem _ ih => exact .inside (shortened.leads_iff.mpr leads) mem ih

/-- A variable stands for nothing larger than a type in which it occurs. -/
theorem Occurs.sizeOf_le (occurs : store.Occurs id ty) (respects : model.Respects store) :
    sizeOf (model.grounds id) ≤ sizeOf (ty.denote model) := by
  induction occurs with
  | here leads => rw [leads.denote_eq respects, Ty.denote_var]
  | @inside ty member members leads mem _ ih =>
      rw [leads.denote_eq respects, Ty.denote_product, GroundTy.product.sizeOf_spec]
      have smaller := List.sizeOf_lt_of_mem (List.mem_map_of_mem (f := Ty.denote model) mem)
      omega

/-- A variable that occurs in a product can not stand for it. -/
theorem Occurs.denote_ne (occurs : store.Occurs id (.product members))
    (respects : model.Respects store) :
    model.grounds id ≠ (Ty.product members).denote model := by
  intro same
  cases occurs with
  | here leads => cases leads
  | @inside _ member found leads mem occursInside =>
      obtain rfl : members = found :=
        Ty.product.inj ((TypeStore.Leads.concrete (by simp)).unique leads)
      have atMost := occursInside.sizeOf_le respects
      rw [same, Ty.denote_product, GroundTy.product.sizeOf_spec] at atMost
      have smaller := List.sizeOf_lt_of_mem (List.mem_map_of_mem (f := Ty.denote model) mem)
      omega

private theorem occursWithin_ends (wellFormed : store.WellFormed) :
    ∀ (levels : Nat) (ty : Ty) (current : TypeStore), Shortened store current → ty.Over store →
      store.Fits levels ty → Ends (occursWithin id levels ty) current
        (fun found next => Shortened store next ∧ (found = true ↔ store.Occurs id ty)) Never := by
  intro levels
  induction levels with
  | zero => exact fun ty current _ _ impossible => impossible.elim
  | succ levels ih =>
      intro ty current shortened owned fits
      rw [occursWithin]
      refine .bind (representative_ends (shortened.wellFormed wellFormed)
        (shortened.over_iff.mpr owned)) fun head next ⟨leadsNow, walked⟩ => ?_
      have leads := shortened.leads_iff.mp leadsNow
      have shortenedNext := shortened.trans walked
      have flat : (∀ other, head ≠ .var other) → (∀ members, head ≠ .product members) →
          ¬ store.Occurs id ty := by
        intro notVar notProduct occurs
        cases occurs with
        | here found => exact notVar id (leads.unique found)
        | inside found _ _ => exact notProduct _ (leads.unique found)
      cases head with
      | unit | bit | bits _ =>
          exact .pure ⟨shortenedNext, by simpa using flat (by simp) (by simp)⟩
      | var other =>
          refine .pure ⟨shortenedNext, ?_⟩
          rw [beq_iff_eq]
          constructor
          · rintro rfl
            exact .here leads
          · intro occurs
            cases occurs with
            | here found => exact Ty.var.inj (leads.unique found)
            | inside found _ _ => cases leads.unique found
      | product members =>
          have membersOver := leads.owned wellFormed owned
          refine (Ends.anyM (fun member inside current shortened =>
            ih member current shortened (membersOver.of_mem inside)
              (fits members leads member inside)) next shortenedNext).never ?_
          intro found last searched
          obtain ⟨shortened, correct⟩ := searched
          refine ⟨shortened, correct.trans ⟨?_, ?_⟩⟩
          · rintro ⟨member, mem, occurs⟩
            exact .inside leads mem occurs
          · intro occurs
            cases occurs with
            | here found => cases leads.unique found
            | @inside _ member others found mem occurs =>
                obtain rfl := Ty.product.inj (leads.unique found)
                exact ⟨member, mem, occurs⟩

/-- The search for a variable never fails, and finds it exactly if it occurs. -/
theorem occurs_ends (wellFormed : store.WellFormed) (owned : ty.Over store) :
    Ends (occurs id ty) store
      (fun found next => Shortened store next ∧ (found = true ↔ store.Occurs id ty)) Never :=
  .after rfl (occursWithin_ends wellFormed _ ty store (.refl store) owned
    (wellFormed.fits_unfoldLimit owned List.mem_cons_self))

end TypeStore

end CircuitWidths
