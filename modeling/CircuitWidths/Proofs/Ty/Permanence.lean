import CircuitWidths.Proofs.Ty.Likeness
import CircuitWidths.Proofs.Ty.Principal
import Mathlib.Logic.Relation

/-!
# What a type store says is permanent

Looking types up rewrites links, also in the middle of a unification that is refused later.  None of
this can be seen from outside: two types that lead to the same head do so in every later store
(`UpheldBy`), so a type and its resolved form have the same resolved form ever after.  What changes
is only that variables without a link get one, which replaces them in all resolved forms at once
(`Evolves.resolve_permanent`).

Operations may be asked about types with variables of another store.  They are refused then, but
they may have shortened or added links before.  So nothing is assumed here about the types that
operations are given.
-/

namespace CircuitWidths

namespace TypeStore

variable {origin store next later : TypeStore} {id : TyVar} {ty head : Ty}

/-! ## Walks from any type -/

/-- A type is over the store if its head is. -/
theorem Leads.over_of_head (leads : store.Leads ty head) (owned : head.Over store) :
    ty.Over store := by
  cases leads with
  | concrete _ => exact owned
  | free _ => exact owned
  | follow linked _ => exact linked.owns.over_var

/-- Looking up the head of any type only shortens links. -/
theorem representative_tries (wellFormed : store.WellFormed) (ty : Ty) :
    Ends (representative ty) store (fun head next => Shortened store next ∧ store.Leads ty head)
      (fun _ next => Shortened store next) := by
  cases ty with
  | unit | bit | bits _ | product _ => exact .after rfl ⟨.refl store, .concrete (by simp)⟩
  | var id =>
      by_cases owned : store.Owns id
      · exact (representative_ends wellFormed owned.over_var).never
          fun _ _ ⟨leads, shortened⟩ => ⟨shortened, leads⟩
      · have missing : store.links.get? id = none := by simpa [Owns] using owned
        have refused : link id store = .error (.foreignVariable id) store := by rw [link, missing]
        exact .after rfl (.of_error (bind_of_error refused) (.refl store))

/-- The same in a store whose links were shortened before. -/
theorem Shortened.representative_tries (shortened : Shortened origin store)
    (wellFormed : origin.WellFormed) (ty : Ty) :
    Ends (representative ty) store (fun head next => Shortened origin next ∧ origin.Leads ty head)
      (fun _ next => Shortened origin next) :=
  (TypeStore.representative_tries (shortened.wellFormed wellFormed) ty).imp
    (fun _ _ ⟨walk, leads⟩ => ⟨shortened.trans walk, shortened.leads_iff.mp leads⟩)
    fun _ _ walk => shortened.trans walk

/-- Members over the store make a product over it. -/
theorem over_product {members : List Ty} (each : ∀ member ∈ members, member.Over store) :
    (Ty.product members).Over store := by
  intro id inside
  obtain ⟨member, mem, mentioned⟩ := Ty.mem_vars_product.mp inside
  exact each member mem id mentioned

/-- Resolving any type only shortens links, and returns only for types over the store. -/
theorem resolveWithin_tries (wellFormed : store.WellFormed) : ∀ (levels : Nat) (ty : Ty)
    (current : TypeStore), Shortened store current → Ends (resolveWithin levels ty) current
      (fun resolved next => Shortened store next ∧ ty.Over store ∧ store.Resolves ty resolved)
      (fun _ next => Shortened store next) := by
  intro levels
  induction levels with
  | zero => exact fun ty current shortened => .throw shortened
  | succ levels ih =>
      intro ty current shortened
      rw [resolveWithin]
      refine .bind (shortened.representative_tries wellFormed ty) fun head next lookedUp => ?_
      obtain ⟨walked, leads⟩ := lookedUp
      cases head with
      | unit | bit | bits _ =>
          have owned := leads.over_of_head (by simp [Ty.Over, Ty.vars])
          exact .pure ⟨walked, owned, .leaf leads (by simp)⟩
      | var id =>
          have owned := leads.over_of_head leads.unlinked.owns.over_var
          exact .pure ⟨walked, owned, .leaf leads (by simp)⟩
      | product members =>
          refine .bind (.mapM (fun member _ => ih member) next walked)
            fun results last collected => ?_
          obtain ⟨done, each⟩ := collected
          have owned : (Ty.product members).Over store := by
            apply over_product
            intro member inside
            obtain ⟨_, memberOver, _⟩ := forall₂_exists_right each inside
            exact memberOver
          obtain ⟨length, resolve⟩ :=
            List.forall₂_iff_zip.mp (each.imp fun _ _ (found : _ ∧ _) => found.2)
          exact .pure ⟨done, leads.over_of_head owned, .product leads length resolve⟩

/-- The same for the resolved form of a type, in a store whose links were shortened before. -/
theorem Shortened.resolve_tries (shortened : Shortened origin store) (wellFormed : origin.WellFormed)
    (ty : Ty) : Ends (resolve ty) store
      (fun resolved next => Shortened origin next ∧ ty.Over origin ∧ origin.Resolves ty resolved)
      (fun _ next => Shortened origin next) :=
  .after rfl (resolveWithin_tries wellFormed _ ty store shortened)

/-- Searching any type only shortens links, and comes to an end without finding the variable only
for types over the store in which it does not occur. -/
theorem occursWithin_tries (wellFormed : store.WellFormed) : ∀ (levels : Nat) (ty : Ty)
    (current : TypeStore), Shortened store current → Ends (occursWithin id levels ty) current
      (fun found next => Shortened store next ∧
        (found = true ↔ (ty.Over store → store.Occurs id ty)))
      (fun _ next => Shortened store next) := by
  intro levels
  induction levels with
  | zero => exact fun ty current shortened => .throw shortened
  | succ levels ih =>
      intro ty current shortened
      rw [occursWithin]
      refine .bind (shortened.representative_tries wellFormed ty) fun head next lookedUp => ?_
      obtain ⟨walked, leads⟩ := lookedUp
      cases head with
      | unit | bit | bits _ =>
          have owned := leads.over_of_head (by simp [Ty.Over, Ty.vars])
          have absent : ¬ store.Occurs id ty := by
            intro occurs
            cases occurs with
            | here found => cases leads.unique found
            | inside found _ _ => cases leads.unique found
          exact .pure ⟨walked, by simp [owned, absent]⟩
      | var other =>
          have owned := leads.over_of_head leads.unlinked.owns.over_var
          refine .pure ⟨walked, ?_⟩
          rw [beq_iff_eq]
          constructor
          · intro same _
            exact .here (same ▸ leads)
          · intro occurs
            cases occurs owned with
            | here found => exact Ty.var.inj (leads.unique found)
            | inside found _ _ => cases leads.unique found
      | product members =>
          refine (Ends.anyM (fun member _ => ih member) next walked).imp ?_
            fun _ _ stopped => stopped
          intro found last searched
          refine ⟨searched.1, searched.2.trans ⟨?_, ?_⟩⟩
          · rintro ⟨member, inside, occurs⟩ owned
            exact .inside leads inside (occurs ((leads.owned wellFormed owned).of_mem inside))
          · -- A search that passes all members has found all their variables in the store.
            intro occurs
            by_contra passed
            have missed : ∀ member ∈ members, member.Over store ∧ ¬ store.Occurs id member :=
              fun member inside => by
                by_contra unsure
                exact passed ⟨member, inside, fun owned =>
                  by_contra fun absent => unsure ⟨owned, absent⟩⟩
            have owned := leads.over_of_head (over_product fun member inside =>
              (missed member inside).1)
            cases occurs owned with
            | here found => cases leads.unique found
            | inside found inside inMember =>
                obtain rfl := Ty.product.inj (leads.unique found)
                exact (missed _ inside).2 inMember

/-- Linking a variable to any type, unless the variable has a link or is not of the store. -/
theorem assign_tries (store : TypeStore) (id : TyVar) (ty : Ty) :
    Ends (assign id ty) store (fun _ next => Assigned store id ty next)
      (fun _ next => next = store) := by
  cases found : store.links.get? id with
  | none =>
      have refused : link id store = .error (.foreignVariable id) store := by rw [link, found]
      exact .of_error (bind_of_error refused) rfl
  | some cell =>
      cases cell with
      | none => exact (assign_ends found).never fun _ _ assigned => assigned
      | some linked =>
          have present : link id store = .ok (some linked) store := by rw [link, found]
          exact .after present (.throw rfl)

/-! ## Upheld stores -/

/-- The two types lead to the same head. -/
def Same (store : TypeStore) (ty other : Ty) : Prop :=
  ∃ head, store.Leads ty head ∧ store.Leads other head

/-- The later store has the variables of the earlier one, and where two types lead to the same head
in the earlier store, they do so in the later one. -/
structure UpheldBy (store later : TypeStore) : Prop where
  wellFormed : later.WellFormed
  owns : ∀ {id : TyVar}, store.Owns id → later.Owns id
  same : ∀ {ty other : Ty}, store.Same ty other → later.Same ty other

theorem UpheldBy.refl (wellFormed : store.WellFormed) : store.UpheldBy store :=
  ⟨wellFormed, fun owned => owned, fun same => same⟩

theorem UpheldBy.trans (first : store.UpheldBy next) (second : next.UpheldBy later) :
    store.UpheldBy later :=
  ⟨second.wellFormed, fun owned => second.owns (first.owns owned),
    fun same => second.same (first.same same)⟩

private theorem Shortened.upheldBy (shortened : Shortened store next)
    (wellFormed : store.WellFormed) : store.UpheldBy next where
  wellFormed := shortened.wellFormed wellFormed
  owns := shortened.owns.mpr
  same := fun ⟨head, leads, otherLeads⟩ =>
    ⟨head, shortened.leads_of_leads leads, shortened.leads_of_leads otherLeads⟩

private theorem fresh_upheldBy (wellFormed : store.WellFormed) : store.UpheldBy store.fresh.2 where
  wellFormed := fresh_wellFormed wellFormed
  owns := store.fresh_precedes.owns
  same := fun ⟨head, leads, otherLeads⟩ => ⟨head, leads.fresh, otherLeads.fresh⟩

/-- Where a variable is newly linked, walks that ended in it go on from its link. -/
theorem Assigned.goes_on (assigned : Assigned store id ty next) {start final : Ty}
    (leads : store.Leads start head)
    (rest : next.Leads (if head = .var id then ty else head) final) : next.Leads start final := by
  induction leads with
  | concrete concrete =>
      rw [if_neg (concrete id)] at rest
      exact rest
  | @free other unlinked =>
      by_cases same : other = id
      · rw [if_pos (congrArg Ty.var same)] at rest
        exact .follow (assigned.linked_iff.mpr (.inl ⟨same, rfl⟩)) rest
      · rw [if_neg fun equal => same (Ty.var.inj equal)] at rest
        exact rest
  | follow linked _ ih => exact .follow (assigned.linked_iff.mpr (.inr linked)) (ih rest)

private theorem Assigned.upheldBy (assigned : Assigned store id ty next)
    (wellFormed : next.WellFormed) (owned : ty.Over store) : store.UpheldBy next where
  wellFormed := wellFormed
  owns := assigned.sameVars.owns.mpr
  same := by
    intro start other ⟨head, leads, otherLeads⟩
    have ends : ∃ final, next.Leads (if head = .var id then ty else head) final := by
      by_cases here : head = .var id
      · rw [if_pos here]
        exact wellFormed.exists_leads (assigned.sameVars.over_iff.mpr owned)
      · rw [if_neg here]
        cases head with
        | unit | bit | bits _ | product _ => exact ⟨_, .concrete (by simp)⟩
        | var passed =>
            refine ⟨_, .free ?_⟩
            rw [Unlinked, assigned.link, if_neg fun same => here (congrArg Ty.var same)]
            exact leads.unlinked
    obtain ⟨final, rest⟩ := ends
    exact ⟨final, assigned.goes_on leads rest, assigned.goes_on otherLeads rest⟩

end TypeStore

/-! ## Unification -/

namespace Unification

open TypeStore

variable {state : Unification}

/-- What a step on the type store does, with the pending conditions out of sight. -/
theorem onTypes_tries {α : Type} {step : StoreM α} {returns : α → TypeStore → Prop}
    {kept : TypeStore → Prop} (ends : Ends step state.types returns fun _ next => kept next) :
    Ends (onTypes step) state (fun value next => returns value next.types)
      fun _ next => kept next.types := by
  cases run : step state.types with
  | ok value types => exact .of_ok (by rw [onTypes, run]) (ends.returned run)
  | error fault types => exact .of_error (by rw [onTypes, run]) (ends.failed run)

end Unification

/-- A property of well-formed stores that stays when links are shortened, and when a variable is
linked to an allowed type without making a cycle.  What an allowed type leads to, and the members of
an allowed product, are allowed. -/
structure TypeStore.Stable (kept : TypeStore → Prop) (allowed : Ty → Prop) : Prop where
  wellFormed : ∀ {store : TypeStore}, kept store → store.WellFormed
  shortened : ∀ {store next : TypeStore}, kept store → Shortened store next → kept next
  assigned : ∀ {store next : TypeStore} {id : TyVar} {ty : Ty}, kept store → allowed ty →
    ty.Over store → Assigned store id ty next → next.WellFormed → kept next
  leads : ∀ {store : TypeStore} {ty head : Ty}, kept store → allowed ty → store.Leads ty head →
    allowed head
  members : ∀ {members : List Ty}, allowed (.product members) → ∀ member ∈ members, allowed member

namespace TypeStore.Stable

open Unification

variable {kept : TypeStore → Prop} {allowed : Ty → Prop} {ty found expected : Ty}

private theorem representative_keeps (stable : Stable kept allowed) (tyAllowed : allowed ty) :
    Preserves (fun state : Unification => kept state.types) (onTypes (representative ty)) allowed := by
  intro state held
  exact (onTypes_tries (representative_tries (stable.wellFormed held) ty)).imp
    (fun _ _ ⟨walked, leads⟩ => ⟨stable.shortened held walked, stable.leads held tyAllowed leads⟩)
    fun _ _ walked => stable.shortened held walked

private theorem bindVar_keeps (stable : Stable kept allowed) (id : TyVar) (tyAllowed : allowed ty) :
    Preserves (fun state => kept state.types) (bindVar id ty) fun _ => True := by
  intro state held
  have wellFormed := stable.wellFormed held
  refine .andThen (onTypes_tries (occursWithin_tries wellFormed _ ty state.types (.refl _)))
    (fun _ _ walked => stable.shortened held walked) fun found middle ⟨walked, correct⟩ => ?_
  have heldThere := stable.shortened held walked
  cases found with
  | true => exact .throw heldThere
  | false =>
      have absent : ty.Over state.types ∧ ¬ state.types.Occurs id ty := by simpa using correct
      refine (onTypes_tries (assign_tries middle.types id ty)).imp ?_ ?_
      · intro _ next assigned
        have owned := walked.over_iff.mpr absent.1
        have stillAbsent := fun occurs => absent.2 (walked.occurs_iff.mp occurs)
        have nextWellFormed := assigned.wellFormed (stable.wellFormed heldThere) owned stillAbsent
        exact ⟨stable.assigned heldThere tyAllowed owned assigned nextWellFormed, trivial⟩
      · intro _ next same
        show kept next.types
        rw [same]
        exact heldThere

/-- Unification of allowed types, whether it succeeds or is refused midway, keeps what is stable. -/
theorem unifyWithin_keeps (stable : Stable kept allowed) (levels : Nat) (foundAllowed : allowed found)
    (expectedAllowed : allowed expected) :
    Preserves (fun state => kept state.types) (unifyWithin levels found expected)
      fun _ => True := by
  have keeps : Keeps (.keeping fun state => kept state.types) allowed := {
    members := stable.members
    refuses := fun held _ => held
    representative := fun held tyAllowed => (stable.representative_keeps tyAllowed).stays held
    bindVar := fun held _ tyAllowed => (stable.bindVar_keeps _ tyAllowed).stays held
    equate := fun held _ _ => .of_ok rfl ⟨held, trivial, trivial⟩
    equateOne := fun held _ => .of_ok rfl ⟨held, trivial, trivial⟩ }
  exact Stays.preserves fun state held =>
    keeps.unifyWithin_stays levels held foundAllowed expectedAllowed

private theorem upheldBy (origin : TypeStore) : Stable origin.UpheldBy fun _ => True where
  wellFormed := fun upheld => upheld.wellFormed
  shortened := fun upheld walked => upheld.trans (walked.upheldBy upheld.wellFormed)
  assigned := fun upheld _ owned assigned wellFormed =>
    upheld.trans (assigned.upheldBy wellFormed owned)
  leads := fun _ _ _ => trivial
  members := fun _ _ _ => trivial

end TypeStore.Stable

/-- Unification upholds what a store has said, whether it succeeds or is refused midway. -/
theorem Unification.unifyWithin_upholds (origin : TypeStore) (levels : Nat) (found expected : Ty) :
    Preserves (fun state => origin.UpheldBy state.types) (unifyWithin levels found expected)
      fun _ => True :=
  (TypeStore.Stable.upheldBy origin).unifyWithin_keeps levels trivial trivial

/-! ## Types in place of variables -/

namespace Ty

mutual

/-- Puts a type in place of every variable; constructors and widths stay. -/
def fill (types : TyVar → Ty) : Ty → Ty
  | .unit => .unit
  | .bit => .bit
  | .bits width => .bits width
  | .product members => .product (fillAll types members)
  | .var id => types id

/-- Puts a type in place of every variable of the types. -/
def fillAll (types : TyVar → Ty) : List Ty → List Ty
  | [] => []
  | ty :: rest => ty.fill types :: fillAll types rest

end

/-- A product is filled in member by member. -/
theorem fill_product (types : TyVar → Ty) (members : List Ty) :
    (Ty.product members).fill types = .product (members.map (fill types)) := by
  rw [fill]
  congr 1
  induction members with
  | nil => rfl
  | cons member members ih => rw [fillAll, ih, List.map_cons]

end Ty

namespace TypeStore

variable {store next later : TypeStore} {ty resolved : Ty}

/-- The resolved form of a variable. -/
def resolvedVar (store : TypeStore) (id : TyVar) : Ty :=
  (returned? (resolve (.var id) store)).getD (.var id)

/-- Resolving returns exactly for the types over the store. -/
theorem returned?_resolve_eq_some (wellFormed : store.WellFormed) :
    returned? (resolve ty store) = some resolved ↔ ty.Over store ∧ store.Resolves ty resolved := by
  constructor
  · intro returned
    have tries := (Shortened.refl store).resolve_tries wellFormed ty
    cases run : resolve ty store with
    | ok value next =>
        rw [run] at returned
        obtain rfl := Option.some.inj returned
        exact (tries.returned run).2
    | error fault next =>
        rw [run] at returned
        cases returned
  · intro ⟨owned, resolves⟩
    obtain ⟨value, next, run, _, found⟩ := (resolve_ends wellFormed owned).exists_ok
    rw [run, found.unique resolves]
    rfl

/-- A written type is resolved by putting resolved forms in place of its variables. -/
theorem resolves_fill (wellFormed : store.WellFormed) (owned : ty.Over store) :
    store.Resolves ty (ty.fill store.resolvedVar) := by
  induction ty with
  | unit | bit | bits _ => exact .leaf (.concrete (by simp)) (by simp [Ty.fill])
  | var id =>
      obtain ⟨resolved, next, run, _, resolves⟩ := (resolve_ends wellFormed owned).exists_ok
      rw [Ty.fill, resolvedVar, run]
      exact resolves
  | product members ih =>
      rw [Ty.fill_product]
      have each : List.Forall₂ store.Resolves members
          (members.map (Ty.fill store.resolvedVar)) := by
        rw [List.forall₂_map_right_iff, List.forall₂_same]
        exact fun member inside => ih member inside (owned.of_mem inside)
      obtain ⟨length, resolve⟩ := List.forall₂_iff_zip.mp each
      exact .product (.concrete (by simp)) length resolve

/-- Where two types have led to the same head, the one leads to what the other does. -/
theorem UpheldBy.leads (upheld : store.UpheldBy later) {head final : Ty}
    (before : store.Leads ty head) (after : later.Leads head final) : later.Leads ty final := by
  obtain ⟨found, leads, headLeads⟩ := upheld.same ⟨head, before, before.head_self⟩
  rwa [← headLeads.unique after]

/-- The later resolved form of a type is that of its earlier resolved form. -/
theorem UpheldBy.resolves (upheld : store.UpheldBy later) (before : store.Resolves ty resolved) :
    ∀ {final : Ty}, later.Resolves resolved final → later.Resolves ty final := by
  induction before with
  | leaf leads _ =>
      intro final after
      cases after with
      | leaf rest flat => exact .leaf (upheld.leads leads rest) flat
      | product rest length each => exact .product (upheld.leads leads rest) length each
  | @product ty members resolved leads length _ ih =>
      intro final after
      have whole : later.Leads (.product resolved) (.product resolved) := .concrete (by simp)
      cases after with
      | leaf rest flat => exact (flat _ (rest.unique whole)).elim
      | product rest otherLength otherEach =>
          obtain rfl := Ty.product.inj (rest.unique whole)
          have each := forall₂_compose (List.forall₂_iff_zip.mpr ⟨length, ih⟩)
            (List.forall₂_iff_zip.mpr ⟨otherLength, otherEach⟩)
            fun _ _ _ first second => first second
          obtain ⟨sameLength, resolve⟩ := List.forall₂_iff_zip.mp each
          exact .product (upheld.leads leads (.concrete (by simp))) sameLength resolve

/-- Shortening paths does not change resolved forms. -/
theorem Shortened.returned?_resolve (shortened : Shortened store next)
    (wellFormed : store.WellFormed) (ty : Ty) :
    returned? (resolve ty next) = returned? (resolve ty store) := by
  ext resolved
  rw [returned?_resolve_eq_some (shortened.wellFormed wellFormed),
    returned?_resolve_eq_some wellFormed, shortened.over_iff]
  refine and_congr_right fun owned => ⟨shortened.resolves, fun resolves => ?_⟩
  have found := resolves_fill (shortened.wellFormed wellFormed) (shortened.over_iff.mpr owned)
  rwa [resolves.unique (shortened.resolves found)]

/-! ## Operations -/

/-- What one operation makes of the store, whatever types it is given and also if it is refused. -/
inductive Operation (store : TypeStore) : TypeStore → Prop
  | fresh : Operation store store.fresh.2
  | representative (ty : Ty) : Operation store (finalState (representative ty store))
  | resolve (ty : Ty) : Operation store (finalState (resolve ty store))
  | substitute (bindings : Bindings Static.Expr) (ty : Ty) :
      Operation store (finalState (substitute bindings ty store))
  | unify (constraints : Constraints) (found expected : Ty) :
      Operation store (finalState (Unification.unify found expected ⟨store, constraints⟩)).types

/-- The second store is reached from the first one by operations. -/
abbrev Evolves (store later : TypeStore) : Prop := Relation.ReflTransGen Operation store later

/-- Looking types up only shortens links. -/
theorem shortened_of_lookup (wellFormed : store.WellFormed) (bindings : Bindings Static.Expr)
    (ty : Ty) : Shortened store (finalState (representative ty store)) ∧
      Shortened store (finalState (resolve ty store)) ∧
      Shortened store (finalState (substitute bindings ty store)) := by
  have resolves : Ends (resolve ty) store (fun _ next => Shortened store next)
      fun _ next => Shortened store next :=
    .after rfl ((resolveWithin_tries wellFormed _ ty store (.refl store)).imp
      (fun _ _ found => found.1) fun _ _ walked => walked)
  have substitutes : Ends (substitute bindings ty) store (fun _ next => Shortened store next)
      fun _ next => Shortened store next := .bind resolves fun _ _ walked => .pure walked
  exact ⟨(representative_tries wellFormed ty).final _ (fun _ _ found => found.1)
      fun _ _ walked => walked,
    resolves.final _ (fun _ _ walked => walked) fun _ _ walked => walked,
    substitutes.final _ (fun _ _ walked => walked) fun _ _ walked => walked⟩

private theorem Operation.upheldBy (operation : store.Operation next)
    (wellFormed : store.WellFormed) : store.UpheldBy next := by
  cases operation with
  | fresh => exact fresh_upheldBy wellFormed
  | representative ty => exact (shortened_of_lookup wellFormed .empty ty).1.upheldBy wellFormed
  | resolve ty => exact (shortened_of_lookup wellFormed .empty ty).2.1.upheldBy wellFormed
  | substitute bindings ty =>
      exact (shortened_of_lookup wellFormed bindings ty).2.2.upheldBy wellFormed
  | unify constraints found expected =>
      have ends := Unification.unifyWithin_upholds store (store.unfoldLimit [found, expected]) found
        expected ⟨store, constraints⟩ (.refl wellFormed)
      exact ends.final (fun state => store.UpheldBy state.types) (fun _ _ upheld => upheld.1)
        fun _ _ upheld => upheld

private theorem Evolves.upheldBy (evolves : store.Evolves later) (wellFormed : store.WellFormed) :
    store.UpheldBy later := by
  induction evolves with
  | refl => exact .refl wellFormed
  | tail _ operation ih => exact ih.trans (operation.upheldBy ih.wellFormed)

/-- Every store that evolves from the empty one is well formed. -/
theorem Evolves.wellFormed {owner : Nat} (evolves : (empty owner).Evolves store) :
    store.WellFormed :=
  (evolves.upheldBy (empty_wellFormed owner)).wellFormed

/-- **Shortened links are invisible and links are permanent.**  In every store that operations have
made, resolving returns exactly for the types over the store.  Looking up a head, resolving and
substituting change what resolving gives for no type.  And in every store that operations make
later, a type has the same resolved form as its earlier resolved form, which is that form with types
in place of its variables: constructors and widths that were found once stay. -/
theorem Evolves.resolve_permanent {owner : Nat} (evolves : (empty owner).Evolves store) :
    (∀ ty : Ty, (returned? (resolve ty store)).isSome ↔ ty.Over store) ∧
    (∀ (bindings : Bindings Static.Expr) (ty other : Ty), ∀ next ∈
      [finalState (representative ty store), finalState (resolve ty store),
        finalState (substitute bindings ty store)],
      returned? (resolve other next) = returned? (resolve other store)) ∧
    ∀ later, store.Evolves later → ∀ ty earlier, returned? (resolve ty store) = some earlier →
      returned? (resolve ty later) = some (earlier.fill later.resolvedVar) ∧
        returned? (resolve earlier later) = some (earlier.fill later.resolvedVar) := by
  have wellFormed := evolves.wellFormed
  refine ⟨fun ty => ?_, fun bindings ty other next among => ?_, ?_⟩
  · rw [Option.isSome_iff_exists]
    simp only [returned?_resolve_eq_some wellFormed, exists_and_left, and_iff_left_iff_imp]
    exact fun owned => ⟨_, resolves_fill wellFormed owned⟩
  · obtain ⟨first, second, third⟩ := shortened_of_lookup wellFormed bindings ty
    have shortened : Shortened store next := by
      simp only [List.mem_cons, List.not_mem_nil, or_false] at among
      rcases among with rfl | rfl | rfl
      · exact first
      · exact second
      · exact third
    exact shortened.returned?_resolve wellFormed other
  · intro later further ty earlier returned
    have upheld := further.upheldBy wellFormed
    obtain ⟨owned, resolves⟩ := (returned?_resolve_eq_some wellFormed).mp returned
    have laterOwned : ∀ {ty : Ty}, ty.Over store → ty.Over later :=
      fun owned id inside => upheld.owns (owned id inside)
    have earlierOwned := laterOwned (resolves.owned wellFormed owned)
    have filled := resolves_fill upheld.wellFormed earlierOwned
    rw [returned?_resolve_eq_some upheld.wellFormed, returned?_resolve_eq_some upheld.wellFormed]
    exact ⟨⟨laterOwned owned, upheld.resolves resolves filled⟩, earlierOwned, filled⟩

/-- A chain of three variables that resolving shortens, and a unification that is refused after it
has linked the last of them. -/
theorem Evolves.resolve_permanent_chain :
    let var (index : Nat) : Ty := .var ⟨0, index⟩
    let made := (empty 0).fresh.2.fresh.2.fresh.2
    let linked := (finalState (Unification.unify (var 1) (var 0) ⟨made, .empty false⟩)).types
    let chain := (finalState (Unification.unify (var 2) (var 1) ⟨linked, .empty false⟩)).types
    let shorter := finalState (resolve (.product [var 0]) chain)
    let refused := Unification.unify (.product [var 2, .unit])
      (.product [.bits (.var "n"), .bit]) ⟨shorter, .empty false⟩
    let later := (finalState refused).types
    chain.Linked ⟨0, 0⟩ (var 1) ∧ shorter.Linked ⟨0, 0⟩ (var 2) ∧
      hasReturned refused = false ∧ returned? (resolve (var 0) chain) = some (var 2) ∧
      returned? (resolve (var 0) shorter) = returned? (resolve (var 0) chain) ∧
      returned? (resolve (var 0) later) = some (.bits (.var "n")) ∧
      returned? (resolve (var 2) later) = some (.bits (.var "n")) := by
  intro var made linked chain shorter refused later
  have begins : (empty 0).Evolves made :=
    ((Relation.ReflTransGen.single .fresh).tail .fresh).tail .fresh
  have evolves : (empty 0).Evolves chain := (begins.tail (.unify _ _ _)).tail (.unify _ _ _)
  have shortens : chain.Evolves shorter := .single (.resolve (.product [var 0]))
  have further : chain.Evolves later := shortens.tail (.unify _ _ _)
  have before : returned? (resolve (var 0) chain) = some (var 2) := by decide +kernel
  have filled : (var 2).fill later.resolvedVar = .bits (.var "n") := by decide +kernel
  obtain ⟨_, invisible, permanent⟩ := evolves.resolve_permanent
  obtain ⟨whole, part⟩ := permanent later further (var 0) (var 2) before
  rw [filled] at whole part
  refine ⟨?_, ?_, by decide +kernel, before, ?_, whole, part⟩
  · unfold Linked
    decide +kernel
  · unfold Linked
    decide +kernel
  · exact invisible .empty (.product [var 0]) (var 0) shorter (by simp [shorter])

end TypeStore

end CircuitWidths
