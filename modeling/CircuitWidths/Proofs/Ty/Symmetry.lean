import CircuitWidths.Proofs.Ty.Comparisons
import CircuitWidths.Proofs.Ty.LikeUnification
import CircuitWidths.Proofs.Ty.Permanence
import Mathlib.Data.List.Zip
import Mathlib.Logic.Equiv.Basic

/-!
# Unification is symmetric

Of two variables unification links the expected one.  So two runs that are given the same types the
other way round link variables in opposite directions, and from the first such link on their stores
differ.  They stay twins (`TypeStore.Twins`): a walk ends in the same type in both, up to a renaming
of the variables that walks end in.  A link between two variables composes the renaming with a swap
of them, and nothing else changes it.
-/

namespace CircuitWidths

namespace Ty

variable {ty : Ty}

/-- Renames the type if it is a variable; what stands inside of it stays. -/
def renamedHead (rename : Equiv.Perm TyVar) : Ty → Ty
  | .var id => .var (rename id)
  | .unit => .unit
  | .bit => .bit
  | .bits width => .bits width
  | .product members => .product members

private theorem renamedHead_of_concrete (rename : Equiv.Perm TyVar)
    (concrete : ∀ id, ty ≠ .var id) : ty.renamedHead rename = ty := by
  cases ty with
  | var id => exact (concrete id rfl).elim
  | unit | bit | bits _ | product _ => rfl

private theorem renamedHead_eq_var {rename : Equiv.Perm TyVar} {id : TyVar} :
    ty.renamedHead rename = .var id ↔ ty = .var (rename.symm id) := by
  cases ty with
  | var other => simp [renamedHead, Equiv.eq_symm_apply]
  | unit | bit | bits _ | product _ => simp [renamedHead]

private theorem renamedHead_symm (rename : Equiv.Perm TyVar) (ty : Ty) :
    (ty.renamedHead rename).renamedHead rename.symm = ty := by
  cases ty with
  | var id => simp [renamedHead]
  | unit | bit | bits _ | product _ => rfl

private theorem renamedHead_refl (ty : Ty) : ty.renamedHead (Equiv.refl TyVar) = ty := by
  cases ty <;> rfl

end Ty

/-! ## Twin stores -/

namespace TypeStore

variable {rename after : Equiv.Perm TyVar} {store other next last : TypeStore} {ty head : Ty}
  {id left right : TyVar}

/-- Both stores have the same variables, and walks from a variable end in the same type, up to a
renaming if that is a variable. -/
structure Twins (rename : Equiv.Perm TyVar) (store other : TypeStore) : Prop where
  wellFormed : store.WellFormed
  otherWellFormed : other.WellFormed
  owns : ∀ id, other.Owns id ↔ store.Owns id
  leads : ∀ {id head}, store.Leads (.var id) head →
    other.Leads (.var id) (head.renamedHead rename)

namespace Twins

private theorem refl (wellFormed : store.WellFormed) : Twins (Equiv.refl TyVar) store store where
  wellFormed := wellFormed
  otherWellFormed := wellFormed
  owns := fun _ => Iff.rfl
  leads := fun leads => by rwa [Ty.renamedHead_refl]

private theorem leads_ty (twins : Twins rename store other) (leads : store.Leads ty head) :
    other.Leads ty (head.renamedHead rename) := by
  by_cases isVar : ∃ id, ty = .var id
  · obtain ⟨id, rfl⟩ := isVar
    exact twins.leads leads
  · have concrete := not_exists.mp isVar
    rw [← (Leads.concrete concrete).unique leads, Ty.renamedHead_of_concrete rename concrete]
    exact .concrete concrete

private theorem flip (twins : Twins rename store other) : Twins rename.symm other store where
  wellFormed := twins.otherWellFormed
  otherWellFormed := twins.wellFormed
  owns := fun id => (twins.owns id).symm
  leads := by
    intro id head otherLeads
    have owned : store.Owns id := (twins.owns id).mp otherLeads.owns_start
    obtain ⟨found, leads⟩ := twins.wellFormed.exists_leads owned.over_var
    rw [otherLeads.unique (twins.leads leads), Ty.renamedHead_symm]
    exact leads

private theorem over_iff (twins : Twins rename store other) : ty.Over other ↔ ty.Over store :=
  forall₂_congr fun id _ => twins.owns id

private theorem unlinked (twins : Twins rename store other) (unlinked : store.Unlinked id) :
    other.Unlinked (rename id) :=
  (twins.leads (.free unlinked)).unlinked

private theorem unlinked_iff (twins : Twins rename store other) :
    store.Unlinked id ↔ other.Unlinked (rename id) := by
  refine ⟨twins.unlinked, fun unlinked => ?_⟩
  have back := twins.flip.unlinked unlinked
  rwa [Equiv.symm_apply_apply] at back

private theorem occurs (twins : Twins rename store other) (occurs : store.Occurs id ty) :
    other.Occurs (rename id) ty := by
  induction occurs with
  | here leads => exact .here (twins.leads_ty leads)
  | inside leads mem _ ih => exact .inside (twins.leads_ty leads) mem ih

private theorem occurs_iff (twins : Twins rename store other) :
    store.Occurs id ty ↔ other.Occurs (rename id) ty := by
  refine ⟨twins.occurs, fun occurs => ?_⟩
  have back := twins.flip.occurs occurs
  rwa [Equiv.symm_apply_apply] at back

/-- Twin stores resolve a type to the same type, up to the renaming. -/
theorem resolves (twins : Twins rename store other) {resolved : Ty}
    (found : store.Resolves ty resolved) :
    other.Resolves ty (resolved.fill fun id => .var (rename id)) := by
  induction found with
  | @leaf ty head leads flat =>
      have otherLeads := twins.leads_ty leads
      cases head with
      | product members => exact (flat members rfl).elim
      | unit | bit | bits _ | var _ => exact .leaf otherLeads (by simp [Ty.fill])
  | @product ty members resolved leads length _ ih =>
      rw [Ty.fill_product]
      have each : List.Forall₂ other.Resolves members
          (resolved.map (Ty.fill fun id => .var (rename id))) := by
        rw [List.forall₂_map_right_iff]
        exact List.forall₂_iff_zip.mpr ⟨length, ih⟩
      obtain ⟨otherLength, otherEach⟩ := List.forall₂_iff_zip.mp each
      exact .product (twins.leads_ty leads) otherLength otherEach

private theorem returned?_resolve (twins : Twins rename store other) (ty : Ty) :
    returned? (resolve ty other) =
      (returned? (resolve ty store)).map (Ty.fill fun id => .var (rename id)) := by
  ext result
  rw [returned?_resolve_eq_some twins.otherWellFormed, Option.map_eq_some_iff, twins.over_iff]
  simp only [returned?_resolve_eq_some twins.wellFormed]
  constructor
  · intro ⟨owned, otherResolves⟩
    have resolves := resolves_fill twins.wellFormed owned
    exact ⟨_, ⟨owned, resolves⟩, (twins.resolves resolves).unique otherResolves⟩
  · rintro ⟨resolved, ⟨owned, resolves⟩, rfl⟩
    exact ⟨owned, twins.resolves resolves⟩

/-- Shortening links on both sides changes nothing. -/
theorem shortened (twins : Twins rename store other) (first : Shortened store next)
    (second : Shortened other last) : Twins rename next last where
  wellFormed := first.wellFormed twins.wellFormed
  otherWellFormed := second.wellFormed twins.otherWellFormed
  owns := fun id => by rw [first.owns, second.owns, twins.owns]
  leads := fun leads => second.leads_iff.mpr (twins.leads (first.leads_iff.mp leads))

end Twins

/-- Where walks go on from `id` to `ty` on the one side and from `partner` to `otherTy` on the other
side, their ends go from one renaming to the other. -/
def Redirects (rename after : Equiv.Perm TyVar) (id : TyVar) (ty : Ty) (partner : TyVar)
    (otherTy : Ty) : Prop :=
  ∀ head : Ty, (if head = .var id then ty else head).renamedHead after =
    if head.renamedHead rename = .var partner then otherTy else head.renamedHead rename

/-- A link to a type that is not a variable leaves the renaming as it is. -/
theorem redirects_concrete (concrete : ∀ id, ty ≠ .var id) :
    Redirects rename rename id ty (rename id) ty := by
  intro head
  by_cases here : head = .var id
  · subst here
    rw [if_pos rfl, Ty.renamedHead_of_concrete rename concrete]
    exact (if_pos rfl).symm
  · rw [if_neg here, if_neg]
    rwa [Ty.renamedHead_eq_var, Equiv.symm_apply_apply]

/-- A link between two variables, in opposite directions, swaps them. -/
theorem redirects_swap (differ : left ≠ right) :
    Redirects rename ((Equiv.swap left right).trans rename) right (.var left) (rename left)
      (.var (rename right)) := by
  intro head
  simp only [Ty.renamedHead_eq_var, Equiv.symm_apply_apply]
  by_cases atRight : head = .var right
  · subst atRight
    simp [Ty.renamedHead, differ.symm]
  by_cases atLeft : head = .var left
  · subst atLeft
    simp [Ty.renamedHead, differ]
  rw [if_neg atRight, if_neg atLeft]
  cases head with
  | unit | bit | bits _ | product _ => rfl
  | var id =>
      have fixed : Equiv.swap left right id = id := Equiv.swap_apply_of_ne_of_ne
        (fun same => atLeft (congrArg Ty.var same)) fun same => atRight (congrArg Ty.var same)
      rw [Ty.renamedHead, Ty.renamedHead, Equiv.trans_apply, fixed]

private theorem Twins.assigned {partner : TyVar} {otherTy : Ty} (twins : Twins rename store other)
    (redirects : Redirects rename after id ty partner otherTy) (first : Assigned store id ty next)
    (second : Assigned other partner otherTy last) (wellFormed : next.WellFormed)
    (otherWellFormed : last.WellFormed) (self : store.Leads ty ty)
    (otherSelf : other.Leads otherTy otherTy) (differs : ty ≠ .var id)
    (otherDiffers : otherTy ≠ .var partner) : Twins after next last where
  wellFormed := wellFormed
  otherWellFormed := otherWellFormed
  owns := fun id => by rw [first.sameVars.owns, second.sameVars.owns, twins.owns]
  leads := by
    intro start head leads
    have owned : store.Owns start := first.sameVars.owns.mp leads.owns_start
    obtain ⟨before, beforeLeads⟩ := twins.wellFormed.exists_leads owned.over_var
    rw [leads.unique (first.leads self differs beforeLeads), redirects before]
    exact second.leads otherSelf otherDiffers (twins.leads beforeLeads)

end TypeStore

/-! ## Two runs -/

/-- The error when the types are given the other way round. -/
def UnifyError.flip : UnifyError → UnifyError
  | .mismatch => .mismatch
  | .resultArity found expected => .resultArity expected found
  | .fault cause => .fault cause

namespace Unification

open TypeStore

variable {rename after : Equiv.Perm TyVar} {state partner middle next last : Unification}
  {found expected ty otherTy : Ty} {id otherId : TyVar} {unifyPair : Ty → Ty → UnifyM Unit}

/-- The meeting of the same heads the other way round. -/
def Meeting.flip : Meeting → Meeting
  | .agree => .agree
  | .compare comparison => .compare comparison.flip
  | .members pairs => .members (pairs.map Prod.swap)
  | .refuse error => .refuse error.flip

private theorem meet_flip (found expected : Ty) : meet expected found =
    (meet found expected).flip := by
  cases found with
  | product lefts =>
      cases expected with
      | product rights =>
          rw [meet, meet]
          by_cases same : lefts.length = rights.length
          · rw [if_pos same, if_pos same.symm, Meeting.flip, List.zip_swap]
          · rw [if_neg same, if_neg (Ne.symm same), Meeting.flip, UnifyError.flip]
      | unit | bit | bits _ | var _ => rfl
  | unit | bit | bits _ | var _ => cases expected <;> rfl

private theorem meet_renamedHead (rename : Equiv.Perm TyVar) (found expected : Ty) :
    meet (found.renamedHead rename) (expected.renamedHead rename) = meet found expected := by
  cases found <;> cases expected <;> rfl

/-- Members that are left to unify are over the store if the products are. -/
theorem over_of_meet_members {store : TypeStore} {pairs : List (Ty × Ty)}
    (meeting : meet found expected = .members pairs) (foundOver : found.Over store)
    (expectedOver : expected.Over store) :
    ∀ pair ∈ pairs, pair.1.Over store ∧ pair.2.Over store := by
  cases found with
  | product lefts =>
      cases expected with
      | product rights =>
          rw [meet] at meeting
          split at meeting
          · obtain rfl := Meeting.members.inj meeting
            intro pair inside
            obtain ⟨inLefts, inRights⟩ := List.of_mem_zip inside
            exact ⟨foundOver.of_mem inLefts, expectedOver.of_mem inRights⟩
          · cases meeting
      | unit | bit | bits _ | var _ => cases meeting
  | unit | bit | bits _ | var _ => cases expected <;> cases meeting

/-- Twin stores again, with the variables that there were before. -/
structure Twinned (state next last : Unification) : Prop where
  sameVars : state.types.SameVars next.types
  twins : ∃ rename, Twins rename next.types last.types

/-- Both runs succeed, or both fail for the same reason seen from opposite sides. -/
abbrev Opposed (state : Unification) :
    EStateM.Result UnifyError Unification Unit →
      EStateM.Result UnifyError Unification Unit → Prop :=
  InStep (fun _ _ next last => Twinned state next last)
    (fun error other next last => other = error.flip ∧ Twinned state next last)

private theorem Twinned.refl (twins : Twins rename state.types partner.types) :
    Twinned state state partner :=
  ⟨.refl _, rename, twins⟩

private theorem Twinned.before (sameVars : state.types.SameVars middle.types)
    (twinned : Twinned middle next last) : Twinned state next last :=
  ⟨sameVars.trans twinned.sameVars, twinned.twins⟩

private theorem Opposed.before {outcome otherOutcome : EStateM.Result UnifyError Unification Unit}
    (sameVars : state.types.SameVars middle.types) (opposed : Opposed middle outcome otherOutcome) :
    Opposed state outcome otherOutcome :=
  opposed.imp (fun _ _ _ _ twinned => twinned.before sameVars)
    fun _ _ _ _ related => ⟨related.1, related.2.before sameVars⟩

/-- Links that change the renaming in the same way on both sides are made or refused together. -/
theorem bindVar_opposed (twins : Twins rename state.types partner.types)
    (redirects : Redirects rename after id ty otherId otherTy)
    (linkable : Linkable state.types id ty) (otherLinkable : Linkable partner.types otherId otherTy)
    (same : state.types.Occurs id ty ↔ partner.types.Occurs otherId otherTy) :
    Opposed state (bindVar id ty state) (bindVar otherId otherTy partner) := by
  have wellFormed := twins.wellFormed
  have otherWellFormed := twins.otherWellFormed
  by_cases occurs : state.types.Occurs id ty
  · obtain ⟨next, run, shortened, _⟩ := bindVar_refused wellFormed linkable occurs
    obtain ⟨last, otherRun, otherShortened, _⟩ :=
      bindVar_refused otherWellFormed otherLinkable (same.mp occurs)
    rw [run, otherRun]
    exact .failed ⟨rfl, shortened.sameVars, rename, twins.shortened shortened otherShortened⟩
  · obtain ⟨middle, next, run, shortened, assigned, nextWellFormed, _⟩ :=
      bindVar_linked wellFormed linkable occurs
    obtain ⟨otherMiddle, last, otherRun, otherShortened, otherAssigned, lastWellFormed, _⟩ :=
      bindVar_linked otherWellFormed otherLinkable fun found => occurs (same.mpr found)
    have linkable := linkable.shortened shortened
    have otherLinkable := otherLinkable.shortened otherShortened
    have linked : Twins after next.types last.types :=
      (twins.shortened shortened otherShortened).assigned redirects assigned otherAssigned
        nextWellFormed lastWellFormed linkable.self otherLinkable.self linkable.differs
        otherLinkable.differs
    rw [run, otherRun]
    exact .returned ⟨shortened.sameVars.trans assigned.sameVars, after, linked⟩

private theorem isHead_renamed (twins : Twins rename state.types partner.types)
    (head : IsHead state.types ty) : IsHead partner.types (ty.renamedHead rename) := by
  have leads := twins.leads_ty head.self
  exact ⟨leads.owned twins.otherWellFormed (twins.over_iff.mpr head.owned), leads.head_self⟩

/-- A variable without a link does not occur in another one. -/
theorem not_occurs_var {store : TypeStore} {left right : TyVar} (unlinked : store.Unlinked left)
    (differ : left ≠ right) : ¬ store.Occurs right (.var left) := by
  intro occurs
  cases occurs with
  | here leads => exact differ (Ty.var.inj ((Leads.free unlinked).unique leads))
  | inside leads _ _ => cases (Leads.free unlinked).unique leads

private theorem unifyHeads_opposed (twins : Twins rename state.types partner.types)
    (foundHead : IsHead state.types found) (expectedHead : IsHead state.types expected)
    (members : ∀ pairs, meet found expected = .members pairs →
      Opposed state (pairs.forM (fun pair => unifyPair pair.1 pair.2) state)
        ((pairs.map Prod.swap).forM (fun pair => unifyPair pair.1 pair.2) partner)) :
    Opposed state (unifyHeads unifyPair found expected state)
      (unifyHeads unifyPair (expected.renamedHead rename) (found.renamedHead rename) partner) := by
  have otherFound := isHead_renamed twins foundHead
  have otherExpected := isHead_renamed twins expectedHead
  have agree : Opposed state (.ok () state) (.ok () partner) := .returned (.refl twins)
  by_cases foundVar : ∃ id, found = .var id
  · obtain ⟨left, rfl⟩ := foundVar
    by_cases expectedVar : ∃ id, expected = .var id
    · obtain ⟨right, rfl⟩ := expectedVar
      rw [Ty.renamedHead, Ty.renamedHead, unifyHeads, unifyHeads]
      by_cases same : left = right
      · rw [if_pos same, if_pos (congrArg rename same).symm]
        exact agree
      · have differ : rename right ≠ rename left := fun equal => same (rename.injective equal).symm
        rw [if_neg same, if_neg differ]
        apply bindVar_opposed twins (redirects_swap same)
        · exact expectedHead.linkable foundHead fun equal => same (Ty.var.inj equal)
        · exact otherFound.linkable otherExpected fun equal => differ (Ty.var.inj equal)
        · exact iff_of_false (not_occurs_var foundHead.self.unlinked same)
            (not_occurs_var otherExpected.self.unlinked differ)
    · have concrete := not_exists.mp expectedVar
      rw [Ty.renamedHead_of_concrete rename concrete] at otherExpected ⊢
      rw [Ty.renamedHead, unifyHeads_var_left concrete, unifyHeads_var_right concrete]
      exact bindVar_opposed twins (redirects_concrete concrete)
        (foundHead.linkable expectedHead (concrete left))
        (otherFound.linkable otherExpected (concrete (rename left))) twins.occurs_iff
  have foundConcrete := not_exists.mp foundVar
  rw [Ty.renamedHead_of_concrete rename foundConcrete] at otherFound ⊢
  by_cases expectedVar : ∃ id, expected = .var id
  · obtain ⟨right, rfl⟩ := expectedVar
    rw [Ty.renamedHead, unifyHeads_var_left foundConcrete, unifyHeads_var_right foundConcrete]
    exact bindVar_opposed twins (redirects_concrete foundConcrete)
      (expectedHead.linkable foundHead (foundConcrete right))
      (otherExpected.linkable otherFound (foundConcrete (rename right))) twins.occurs_iff
  have expectedConcrete := not_exists.mp expectedVar
  rw [Ty.renamedHead_of_concrete rename expectedConcrete,
    unifyHeads_eq_carryOut foundConcrete expectedConcrete,
    unifyHeads_eq_carryOut expectedConcrete foundConcrete, meet_flip found expected]
  cases meeting : meet found expected with
  | agree => exact agree
  | compare comparison => exact .returned ⟨.refl _, rename, twins⟩
  | members pairs => exact members pairs meeting
  | refuse error => exact .failed ⟨rfl, .refl twins⟩

private theorem Meeting.comparisons_flip {along otherAlong : List (Ty × Ty) → List Comparison}
    (meeting : Meeting) (members : ∀ pairs, meeting = .members pairs →
      otherAlong (pairs.map Prod.swap) = (along pairs).map (·.flip)) :
    meeting.flip.comparisons otherAlong = (meeting.comparisons along).map (·.flip) := by
  cases meeting with
  | agree => rfl
  | compare comparison => rfl
  | members pairs => exact members pairs rfl
  | refuse error => rfl

/-- From twin stores, given types the other way round, the run goes the opposite way and compares
the same widths from the other side. -/
def Reversible (unifyPair : Ty → Ty → UnifyM Unit)
    (comparePair : Ty → Ty → Unification → List Comparison) : Prop :=
  ∀ {rename : Equiv.Perm TyVar} {state partner : Unification} {found expected : Ty},
    Twins rename state.types partner.types → found.Over state.types → expected.Over state.types →
      Opposed state (unifyPair found expected state) (unifyPair expected found partner) ∧
        comparePair expected found partner = (comparePair found expected state).map (·.flip)

/-- Pairs in turn go the opposite way if each of them does. -/
theorem Reversible.along {comparePair : Ty → Ty → Unification → List Comparison}
    (reversible : Reversible unifyPair comparePair) (pairs : List (Ty × Ty)) :
    ∀ {rename : Equiv.Perm TyVar} {state partner : Unification},
      Twins rename state.types partner.types →
      (∀ pair ∈ pairs, pair.1.Over state.types ∧ pair.2.Over state.types) →
        Opposed state (pairs.forM (fun pair => unifyPair pair.1 pair.2) state)
          ((pairs.map Prod.swap).forM (fun pair => unifyPair pair.1 pair.2) partner) ∧
        comparisonsAlong unifyPair comparePair (pairs.map Prod.swap) partner =
          (comparisonsAlong unifyPair comparePair pairs state).map (·.flip) := by
  induction pairs with
  | nil => exact fun twins _ => ⟨.returned (.refl twins), rfl⟩
  | cons pair pairs ih =>
      intro rename state partner twins owned
      obtain ⟨⟨foundOver, expectedOver⟩, restOver⟩ := List.forall_mem_cons.mp owned
      obtain ⟨opposed, compared⟩ := reversible twins foundOver expectedOver
      rw [List.map_cons, comparisonsAlong, comparisonsAlong, List.map_append, Prod.fst_swap,
        Prod.snd_swap, compared]
      show Opposed state ((unifyPair pair.1 pair.2 >>= fun _ =>
          pairs.forM fun pair => unifyPair pair.1 pair.2) state)
        ((unifyPair pair.2 pair.1 >>= fun _ =>
          (pairs.map Prod.swap).forM fun pair => unifyPair pair.1 pair.2) partner) ∧ _
      generalize run : unifyPair pair.1 pair.2 state = outcome at opposed
      generalize otherRun : unifyPair pair.2 pair.1 partner = otherOutcome at opposed
      cases opposed with
      | failed related =>
          rw [bind_of_error run, bind_of_error otherRun]
          exact ⟨.failed related, rfl⟩
      | returned twinned =>
          rw [bind_of_ok run, bind_of_ok otherRun]
          obtain ⟨sameVars, after, twinsThere⟩ := twinned
          have stillOver := fun other inside => And.imp sameVars.over_iff.mpr
            sameVars.over_iff.mpr (restOver other inside)
          obtain ⟨restOpposed, restCompared⟩ := ih twinsThere stillOver
          exact ⟨restOpposed.before sameVars, congrArg (_ ++ ·) restCompared⟩

/-- The heads of two types are looked up one after the other. -/
theorem heads_run (wellFormed : state.types.WellFormed) (foundOver : found.Over state.types)
    (expectedOver : expected.Over state.types) :
    ∃ foundHead expectedHead first middle,
      onTypes (representative found) state = .ok foundHead first ∧
      onTypes (representative expected) first = .ok expectedHead middle ∧
      state.types.Leads found foundHead ∧ state.types.Leads expected expectedHead ∧
      Shortened state.types middle.types := by
  obtain ⟨foundHead, first, foundRun, ⟨foundLeads, walked⟩, _⟩ :=
    representative_run wellFormed foundOver
  obtain ⟨expectedHead, middle, expectedRun, ⟨expectedLeads, further⟩, _⟩ :=
    representative_run (walked.wellFormed wellFormed) (walked.over_iff.mpr expectedOver)
  exact ⟨foundHead, expectedHead, first, middle, foundRun, expectedRun, foundLeads,
    walked.leads_iff.mp expectedLeads, walked.trans further⟩

private theorem unifyWithin_reversible (levels : Nat) :
    Reversible (unifyWithin levels) (comparisonsWithin levels) := by
  induction levels with
  | zero => exact fun twins _ _ => ⟨.failed ⟨rfl, .refl twins⟩, rfl⟩
  | succ levels ih =>
      intro rename state partner found expected twins foundOver expectedOver
      obtain ⟨foundHead, expectedHead, first, middle, foundRun, expectedRun, foundLeads,
        expectedLeads, walked⟩ := heads_run twins.wellFormed foundOver expectedOver
      obtain ⟨otherExpected, otherFound, otherFirst, otherMiddle, otherExpectedRun, otherFoundRun,
        otherExpectedLeads, otherFoundLeads, otherWalked⟩ :=
        heads_run twins.otherWellFormed (twins.over_iff.mpr expectedOver)
          (twins.over_iff.mpr foundOver)
      obtain rfl := (twins.leads_ty foundLeads).unique otherFoundLeads
      obtain rfl := (twins.leads_ty expectedLeads).unique otherExpectedLeads
      have twinsThere := twins.shortened walked otherWalked
      have foundIsHead : IsHead middle.types foundHead := IsHead.shortened
        ⟨foundLeads.owned twins.wellFormed foundOver, foundLeads.head_self⟩ walked
      have expectedIsHead : IsHead middle.types expectedHead := IsHead.shortened
        ⟨expectedLeads.owned twins.wellFormed expectedOver, expectedLeads.head_self⟩ walked
      have members := fun pairs meeting => ih.along pairs twinsThere
        (over_of_meet_members meeting foundIsHead.owned expectedIsHead.owned)
      rw [unifyWithin_succ, unifyWithin_succ, bind_of_ok foundRun, bind_of_ok expectedRun,
        bind_of_ok otherExpectedRun, bind_of_ok otherFoundRun,
        comparisonsWithin_succ foundRun expectedRun,
        comparisonsWithin_succ otherExpectedRun otherFoundRun, meet_renamedHead, meet_flip]
      constructor
      · exact (unifyHeads_opposed twinsThere foundIsHead expectedIsHead fun pairs meeting =>
          (members pairs meeting).1).before walked.sameVars
      · exact Meeting.comparisons_flip _ fun pairs meeting => (members pairs meeting).2

/-! ## Symmetry -/

/-- Both runs succeed, both are refused because the types do not match, or both are refused because
of the numbers of members, which each of them sees from its side. -/
inductive Opposite : EStateM.Result UnifyError Unification Unit →
    EStateM.Result UnifyError Unification Unit → Prop
  | success {next last : Unification} : Opposite (.ok () next) (.ok () last)
  | mismatch {next last : Unification} :
      Opposite (.error .mismatch next) (.error .mismatch last)
  | resultArity {found expected : Nat} {next last : Unification} :
      Opposite (.error (.resultArity found expected) next)
        (.error (.resultArity expected found) last)

private theorem Opposed.twinned {outcome otherOutcome : EStateM.Result UnifyError Unification Unit}
    (opposed : Opposed state outcome otherOutcome) :
    Twinned state (finalState outcome) (finalState otherOutcome) := by
  cases opposed with
  | returned twinned => exact twinned
  | failed related => exact related.2

private theorem Opposed.opposite {outcome otherOutcome : EStateM.Result UnifyError Unification Unit}
    (opposed : Opposed state outcome otherOutcome)
    (noFault : ∀ fault next, outcome ≠ .error (.fault fault) next) :
    Opposite outcome otherOutcome := by
  cases opposed with
  | returned _ => exact .success
  | @failed error other next last related =>
      obtain ⟨rfl, _⟩ := related
      cases error with
      | mismatch => exact .mismatch
      | resultArity found expected => exact .resultArity
      | fault cause => exact (noFault cause next rfl).elim

private theorem unfoldLimit_comm (store : TypeStore) (found expected : Ty) :
    store.unfoldLimit [expected, found] = store.unfoldLimit [found, expected] := by
  simp only [unfoldLimit, Ty.depthAll, Nat.max_left_comm]

private theorem unify_reversed (wellFormed : state.types.WellFormed)
    (foundOver : found.Over state.types) (expectedOver : expected.Over state.types) :
    Opposed state (unify found expected state) (unify expected found state) ∧
      comparisons expected found state = (comparisons found expected state).map (·.flip) := by
  have limit := unfoldLimit_comm state.types found expected
  have backward : unify expected found state =
      unifyWithin (state.types.unfoldLimit [found, expected]) expected found state := by
    rw [← limit]
    rfl
  rw [backward, comparisons, comparisons, limit]
  exact unifyWithin_reversible _ (Twins.refl wellFormed) foundOver expectedOver

/-- **Unification is symmetric.**  In every store that operations have made, two types given in
either order are both accepted or both refused, for the same reason.  The two runs compare the same
widths in the same order: where a bus meets a single bit both demand the same equation, and where two
buses meet the sides are swapped.  And the stores that they leave resolve every type to the same
type, up to one renaming of the variables without a link. -/
theorem unify_symmetric {owner : Nat} {store : TypeStore}
    (evolves : (TypeStore.empty owner).Evolves store) (constraints : Constraints)
    (foundOver : found.Over store) (expectedOver : expected.Over store) :
    let state : Unification := ⟨store, constraints⟩
    let forward := unify found expected state
    let backward := unify expected found state
    let kept := (comparisons found expected state).filter (·.isKept constraints.keepTrivial)
    Opposite forward backward ∧
      (finalState forward).constraints.pending =
        constraints.pending ++ kept.map (·.equation) ∧
      (finalState backward).constraints.pending =
        constraints.pending ++ kept.map (·.flip.equation) ∧
      ∃ rename : Equiv.Perm TyVar,
        (∀ id, (finalState forward).types.Unlinked id ↔
          (finalState backward).types.Unlinked (rename id)) ∧
        ∀ ty, returned? (resolve ty (finalState backward).types) =
          (returned? (resolve ty (finalState forward).types)).map
            (Ty.fill fun id => .var (rename id)) := by
  intro state forward backward kept
  have wellFormed := evolves.wellFormed
  have noFault := wellFormed.unify_ne_fault constraints foundOver expectedOver
  obtain ⟨opposed, compared⟩ : Opposed state forward backward ∧
      comparisons expected found state = (comparisons found expected state).map (·.flip) :=
    unify_reversed wellFormed foundOver expectedOver
  obtain ⟨_, rename, twins⟩ := opposed.twinned
  have keptBackward : (comparisons expected found state).filter
      (·.isKept constraints.keepTrivial) = kept.map (·.flip) := by
    rw [compared, List.filter_map]
    simp only [Function.comp_def, Comparison.isKept_flip]
    rfl
  refine ⟨opposed.opposite noFault, ?_, ?_, rename, fun _ => twins.unlinked_iff,
    twins.returned?_resolve⟩
  · rw [constraints_unify]
    rfl
  · rw [constraints_unify, Constraints.after, keptBackward, List.map_map]
    rfl

/-- Two variables that are linked in opposite directions, two buses, and a bus in place of a single
bit, before a member that both runs refuse: the variable would stand inside of itself. -/
theorem unify_symmetric_refused :
    let var (index : Nat) : Ty := .var ⟨0, index⟩
    let made := (TypeStore.empty 0).fresh.2.fresh.2
    let found : Ty := .product [var 0, .bits (.var "n"), .bit, var 0]
    let expected : Ty := .product [var 1, .bits (.int 1), .bits (.var "m"), .product [var 1]]
    let forward := unify found expected ⟨made, .empty false⟩
    let backward := unify expected found ⟨made, .empty false⟩
    found.Over made ∧ expected.Over made ∧
      (finalState forward).types.Linked ⟨0, 1⟩ (var 0) ∧
      (finalState backward).types.Linked ⟨0, 0⟩ (var 1) ∧
      hasReturned forward = false ∧ Opposite forward backward ∧
      (finalState forward).constraints.pending =
        [.binary .eq (.var "n") (.int 1), .binary .eq (.var "m") (.int 1)] ∧
      (finalState backward).constraints.pending =
        [.binary .eq (.int 1) (.var "n"), .binary .eq (.var "m") (.int 1)] ∧
      ∃ rename : Equiv.Perm TyVar,
        (∀ id, (finalState forward).types.Unlinked id ↔
          (finalState backward).types.Unlinked (rename id)) ∧
        ∀ ty, returned? (resolve ty (finalState backward).types) =
          (returned? (resolve ty (finalState forward).types)).map
            (Ty.fill fun id => .var (rename id)) := by
  intro var made found expected forward backward
  have evolves : (TypeStore.empty 0).Evolves made :=
    (Relation.ReflTransGen.single .fresh).tail .fresh
  have owned : found.Over made ∧ expected.Over made := by
    unfold Ty.Over Owns
    decide +kernel
  have compared : (comparisons found expected ⟨made, .empty false⟩).filter
      (·.isKept (Constraints.empty false).keepTrivial) =
        [.buses (.var "n") (.int 1), .bit (.var "m")] := by decide +kernel
  have opposite : (finalState forward).types.Linked ⟨0, 1⟩ (var 0) ∧
      (finalState backward).types.Linked ⟨0, 0⟩ (var 1) := by
    unfold Linked
    decide +kernel
  have refused : hasReturned forward = false := by decide +kernel
  obtain ⟨outcomes, forwardPending, backwardPending, renamed⟩ :=
    unify_symmetric evolves (.empty false) owned.1 owned.2
  rw [compared] at forwardPending
  rw [compared] at backwardPending
  -- Without the abbreviations the runs need not be computed to see that both sides are the same.
  simp only [forward, backward] at opposite refused ⊢
  exact ⟨owned.1, owned.2, opposite.1, opposite.2, refused, outcomes, forwardPending,
    backwardPending, renamed⟩

end Unification

end CircuitWidths
