import CircuitWidths.Proofs.Ty.Likeness
import CircuitWidths.Proofs.Ty.Termination

/-!
# Unification of types that are alike

In states that are alike, unification of types that are alike goes the same way: it succeeds or
fails in both, for the same reason, and leaves states that are alike.  The limits of the two walks
may differ, but neither of them is ever reached.
-/

namespace CircuitWidths

/-- Pending constraints stay related when equations between widths that are alike are added. -/
structure Likeness.Tracks (likeness : Likeness) (pending : Constraints → Constraints → Prop) :
    Prop where
  one : likeness.width (.int 1) (.int 1)
  equate : ∀ {constraints others : Constraints} {left right otherLeft otherRight : Static.Expr},
    pending constraints others → likeness.width left otherLeft → likeness.width right otherRight →
      pending (constraints.emitEqual left right) (others.emitEqual otherLeft otherRight)

namespace Unification

open TypeStore

variable {likeness : Likeness} {pending : Constraints → Constraints → Prop}

/-- The stores are alike and the pending constraints related. -/
structure Like (likeness : Likeness) (pending : Constraints → Constraints → Prop)
    (state partner : Unification) : Prop where
  types : state.types.Like likeness partner.types
  constraints : pending state.constraints partner.constraints

/-- Two states that are alike again, with the variables that there were before. -/
structure Onward (likeness : Likeness) (pending : Constraints → Constraints → Prop)
    (state partner next last : Unification) : Prop where
  like : next.Like likeness pending last
  first : state.types.SameVars next.types
  second : partner.types.SameVars last.types

/-- Both runs succeed or both fail for the same reason, in states that are alike. -/
abbrev Together (likeness : Likeness) (pending : Constraints → Constraints → Prop)
    (state partner : Unification) :
    EStateM.Result UnifyError Unification Unit → EStateM.Result UnifyError Unification Unit → Prop :=
  InStep (fun _ _ next last => Onward likeness pending state partner next last)
    (fun error other next last => error = other ∧ Onward likeness pending state partner next last)

variable {state partner middle middlePartner next last : Unification}
  {found otherFound expected otherExpected ty otherTy : Ty} {id otherId : TyVar}

private theorem Onward.refl (like : state.Like likeness pending partner) :
    Onward likeness pending state partner state partner :=
  ⟨like, .refl _, .refl _⟩

private theorem Onward.trans (onward : Onward likeness pending state partner middle middlePartner)
    (further : Onward likeness pending middle middlePartner next last) :
    Onward likeness pending state partner next last :=
  ⟨further.like, onward.first.trans further.first, onward.second.trans further.second⟩

/-- Shortening paths on both sides takes two states that are alike onward. -/
theorem Onward.of_shortened (like : state.Like likeness pending partner)
    (first : Shortened state.types next.types) (second : Shortened partner.types last.types)
    (kept : next.constraints = state.constraints)
    (otherKept : last.constraints = partner.constraints) :
    Onward likeness pending state partner next last := by
  have constraints : pending next.constraints last.constraints := by
    rw [kept, otherKept]
    exact like.constraints
  exact ⟨⟨like.types.shortened first second, constraints⟩, first.sameVars, second.sameVars⟩

private theorem Together.later {outcome otherOutcome : EStateM.Result UnifyError Unification Unit}
    (onward : Onward likeness pending state partner middle middlePartner)
    (together : Together likeness pending middle middlePartner outcome otherOutcome) :
    Together likeness pending state partner outcome otherOutcome :=
  together.imp (fun _ _ _ _ further => onward.trans further)
    fun _ _ _ _ further => ⟨further.1, onward.trans further.2⟩

private theorem occurs_run (wellFormed : state.types.WellFormed) (owned : ty.Over state.types) :
    ∃ answer next, onTypes (occurs id ty) state = .ok answer next ∧
      (Shortened state.types next.types ∧ (answer = true ↔ state.types.Occurs id ty)) ∧
        next.constraints = state.constraints := by
  have ends : Ends (onTypes (occurs id ty)) state _ Never :=
    onTypes_ends (occurs_ends wellFormed owned)
  exact ends.exists_ok

private theorem assign_run (unlinked : state.types.Unlinked id) :
    ∃ value next, onTypes (assign id ty) state = .ok value next ∧
      Assigned state.types id ty next.types ∧ next.constraints = state.constraints := by
  have ends : Ends (onTypes (assign id ty)) state _ Never := onTypes_ends (assign_ends unlinked)
  exact ends.exists_ok

/-- A head that a variable is to be linked to. -/
structure Linkable (store : TypeStore) (id : TyVar) (ty : Ty) : Prop where
  unlinked : store.Unlinked id
  owned : ty.Over store
  self : store.Leads ty ty
  differs : ty ≠ .var id

/-- A variable that can be linked still can when paths are shortened. -/
theorem Linkable.shortened {store next : TypeStore} (linkable : Linkable store id ty)
    (shortened : Shortened store next) : Linkable next id ty where
  unlinked := shortened.unlinked.mpr linkable.unlinked
  owned := shortened.over_iff.mpr linkable.owned
  self := shortened.leads_iff.mpr linkable.self
  differs := linkable.differs

/-- Linking a variable to a head is refused if the variable occurs in it. -/
theorem bindVar_refused (wellFormed : state.types.WellFormed)
    (linkable : Linkable state.types id ty) (occurs : state.types.Occurs id ty) :
    ∃ next, bindVar id ty state = .error .mismatch next ∧
      Shortened state.types next.types ∧ next.constraints = state.constraints := by
  obtain ⟨answer, next, run, ⟨shortened, correct⟩, kept⟩ := occurs_run wellFormed linkable.owned
  refine ⟨next, ?_, shortened, kept⟩
  rw [bindVar, bind_of_ok run, correct.mpr occurs]
  rfl

/-- Otherwise the variable is linked, after the search has shortened links. -/
theorem bindVar_linked (wellFormed : state.types.WellFormed) (linkable : Linkable state.types id ty)
    (absent : ¬ state.types.Occurs id ty) :
    ∃ middle next, bindVar id ty state = .ok () next ∧ Shortened state.types middle ∧
      Assigned middle id ty next.types ∧ next.types.WellFormed ∧
        next.constraints = state.constraints := by
  obtain ⟨answer, middle, run, ⟨shortened, correct⟩, kept⟩ := occurs_run wellFormed linkable.owned
  have linkable := linkable.shortened shortened
  obtain ⟨_, next, assignRun, assigned, assignKept⟩ := assign_run linkable.unlinked
  have middleAbsent : ¬ middle.types.Occurs id ty := fun occurs =>
    absent (shortened.occurs_iff.mp occurs)
  refine ⟨middle.types, next, ?_, shortened, assigned,
    assigned.wellFormed (shortened.wellFormed wellFormed) linkable.owned middleAbsent,
    assignKept.trans kept⟩
  have answered : answer = false := by
    rw [← Bool.not_eq_true, correct]
    exact absent
  rw [bindVar, bind_of_ok run, answered]
  exact assignRun

/-- Linking paired variables to heads that are alike succeeds in both states or in neither. -/
theorem bindVar_together (alike : state.Like likeness pending partner)
    (paired : likeness.var id otherId) (like : ty.Like likeness otherTy)
    (linkable : Linkable state.types id ty) (otherLinkable : Linkable partner.types otherId otherTy) :
    Together likeness pending state partner (bindVar id ty state)
      (bindVar otherId otherTy partner) := by
  have wellFormed := alike.types.wellFormed
  have otherWellFormed := alike.types.otherWellFormed
  have same := alike.types.occurs_iff paired like
  by_cases occurs : state.types.Occurs id ty
  · obtain ⟨next, run, shortened, kept⟩ := bindVar_refused wellFormed linkable occurs
    obtain ⟨last, otherRun, otherShortened, otherKept⟩ :=
      bindVar_refused otherWellFormed otherLinkable (same.mp occurs)
    rw [run, otherRun]
    exact .failed ⟨rfl, .of_shortened alike shortened otherShortened kept otherKept⟩
  · obtain ⟨middle, next, run, shortened, assigned, nextWellFormed, kept⟩ :=
      bindVar_linked wellFormed linkable occurs
    obtain ⟨otherMiddle, last, otherRun, otherShortened, otherAssigned, lastWellFormed,
      otherKept⟩ := bindVar_linked otherWellFormed otherLinkable fun found => occurs (same.mpr found)
    have linkable := linkable.shortened shortened
    have otherLinkable := otherLinkable.shortened otherShortened
    have types : next.types.Like likeness last.types :=
      (alike.types.shortened shortened otherShortened).assigned paired like assigned otherAssigned
        nextWellFormed lastWellFormed linkable.self otherLinkable.self linkable.differs
        otherLinkable.differs
    have constraints : pending next.constraints last.constraints := by
      rw [kept, otherKept]
      exact alike.constraints
    rw [run, otherRun]
    exact .returned ⟨⟨types, constraints⟩, shortened.sameVars.trans assigned.sameVars,
      otherShortened.sameVars.trans otherAssigned.sameVars⟩

private theorem equate_together (tracks : likeness.Tracks pending)
    (alike : state.Like likeness pending partner) {left right otherLeft otherRight : Static.Expr}
    (lefts : likeness.width left otherLeft) (rights : likeness.width right otherRight) :
    Together likeness pending state partner (equate left right state)
      (equate otherLeft otherRight partner) :=
  .returned ⟨⟨alike.types, tracks.equate alike.constraints lefts rights⟩, .refl _, .refl _⟩

/-! ## Unifying -/

/-- The type is where walks over the store end. -/
structure IsHead (store : TypeStore) (ty : Ty) : Prop where
  owned : ty.Over store
  self : store.Leads ty ty

/-- A variable without a link can be linked to any other head. -/
theorem IsHead.linkable {store : TypeStore} (start : IsHead store (.var id))
    (head : IsHead store ty) (differs : ty ≠ .var id) : Linkable store id ty :=
  ⟨start.self.unlinked, head.owned, head.self, differs⟩

/-- A head is still one when paths are shortened. -/
theorem IsHead.shortened {store next : TypeStore} (head : IsHead store ty)
    (shortened : Shortened store next) : IsHead next ty :=
  ⟨shortened.over_iff.mpr head.owned, shortened.leads_iff.mpr head.self⟩

/-- Links are followed to a head in every well-formed store, and no condition is added. -/
theorem representative_run (wellFormed : state.types.WellFormed) (owned : ty.Over state.types) :
    ∃ head next, onTypes (representative ty) state = .ok head next ∧
      (state.types.Leads ty head ∧ Shortened state.types next.types) ∧
        next.constraints = state.constraints := by
  have ends : Ends (onTypes (representative ty)) state _ Never :=
    onTypes_ends (representative_ends wellFormed owned)
  exact ends.exists_ok

/-- The heads of two types were looked up, one in each state. -/
structure LookedUp (likeness : Likeness) (pending : Constraints → Constraints → Prop)
    (state partner : Unification) (head otherHead : Ty) (next last : Unification) : Prop where
  walk : Shortened state.types next.types
  otherWalk : Shortened partner.types last.types
  onward : Onward likeness pending state partner next last
  like : head.Like likeness otherHead
  isHead : IsHead next.types head
  otherIsHead : IsHead last.types otherHead

private theorem representative_together (alike : state.Like likeness pending partner)
    (like : ty.Like likeness otherTy) (owned : ty.Over state.types) :
    ∃ head otherHead next last, onTypes (representative ty) state = .ok head next ∧
      onTypes (representative otherTy) partner = .ok otherHead last ∧
        LookedUp likeness pending state partner head otherHead next last := by
  have otherOwned := alike.types.isOver like owned
  obtain ⟨head, next, run, ⟨leads, walk⟩, kept⟩ :=
    representative_run alike.types.wellFormed owned
  obtain ⟨otherHead, last, otherRun, ⟨otherLeads, otherWalk⟩, otherKept⟩ :=
    representative_run alike.types.otherWellFormed otherOwned
  exact ⟨head, otherHead, next, last, run, otherRun, {
    walk := walk
    otherWalk := otherWalk
    onward := .of_shortened alike walk otherWalk kept otherKept
    like := alike.types.heads like leads otherLeads
    isHead := IsHead.shortened ⟨leads.owned alike.types.wellFormed owned, leads.head_self⟩ walk
    otherIsHead := IsHead.shortened
      ⟨otherLeads.owned alike.types.otherWellFormed otherOwned, otherLeads.head_self⟩ otherWalk }⟩

/-- Two pairs of heads, one pair in each state. -/
structure HeadPairs (likeness : Likeness) (pending : Constraints → Constraints → Prop)
    (state partner : Unification) (found otherFound expected otherExpected : Ty) : Prop where
  alike : state.Like likeness pending partner
  found : IsHead state.types found
  otherFound : IsHead partner.types otherFound
  expected : IsHead state.types expected
  otherExpected : IsHead partner.types otherExpected

private theorem HeadPairs.bind_found
    (heads : HeadPairs likeness pending state partner (.var id) (.var otherId) expected otherExpected)
    (paired : likeness.var id otherId) (like : expected.Like likeness otherExpected)
    (differs : expected ≠ .var id) (otherDiffers : otherExpected ≠ .var otherId) :
    Together likeness pending state partner (bindVar id expected state)
      (bindVar otherId otherExpected partner) :=
  bindVar_together heads.alike paired like (heads.found.linkable heads.expected differs)
    (heads.otherFound.linkable heads.otherExpected otherDiffers)

private theorem HeadPairs.bind_expected
    (heads : HeadPairs likeness pending state partner found otherFound (.var id) (.var otherId))
    (paired : likeness.var id otherId) (like : found.Like likeness otherFound)
    (differs : found ≠ .var id) (otherDiffers : otherFound ≠ .var otherId) :
    Together likeness pending state partner (bindVar id found state)
      (bindVar otherId otherFound partner) :=
  bindVar_together heads.alike paired like (heads.expected.linkable heads.found differs)
    (heads.otherExpected.linkable heads.otherFound otherDiffers)

private theorem unifyHeads_together {unifyPair : Ty → Ty → UnifyM Unit}
    (tracks : likeness.Tracks pending)
    (heads : HeadPairs likeness pending state partner found otherFound expected otherExpected)
    (foundLike : found.Like likeness otherFound)
    (expectedLike : expected.Like likeness otherExpected)
    (members : ∀ lefts otherLefts rights otherRights, found = .product lefts →
      expected = .product rights → List.Forall₂ (Ty.Like likeness) lefts otherLefts →
      List.Forall₂ (Ty.Like likeness) rights otherRights →
      Together likeness pending state partner
        ((lefts.zip rights).forM (fun pair => unifyPair pair.1 pair.2) state)
        ((otherLefts.zip otherRights).forM (fun pair => unifyPair pair.1 pair.2) partner)) :
    Together likeness pending state partner (unifyHeads unifyPair found expected state)
      (unifyHeads unifyPair otherFound otherExpected partner) := by
  have agree : Together likeness pending state partner (.ok () state) (.ok () partner) :=
    .returned (.refl heads.alike)
  have refuse : ∀ error : UnifyError,
      Together likeness pending state partner (.error error state) (.error error partner) :=
    fun error => .failed ⟨rfl, .refl heads.alike⟩
  cases expectedLike with
  | @var right otherRight expectedPaired =>
      cases foundLike with
      | @var left otherLeft foundPaired =>
          have same : left = right ↔ otherLeft = otherRight := by
            constructor
            · rintro rfl
              exact likeness.unique.2 foundPaired expectedPaired
            · rintro rfl
              exact likeness.unique.1 foundPaired expectedPaired
          rw [unifyHeads, unifyHeads]
          by_cases equal : left = right
          · rw [if_pos equal, if_pos (same.mp equal)]
            exact agree
          · have otherwise : otherLeft ≠ otherRight := fun found => equal (same.mpr found)
            rw [if_neg equal, if_neg otherwise]
            exact heads.bind_expected expectedPaired (.var foundPaired)
              (fun found => equal (Ty.var.inj found)) fun found => otherwise (Ty.var.inj found)
      | unit => exact heads.bind_expected expectedPaired .unit (by simp) (by simp)
      | bit => exact heads.bind_expected expectedPaired .bit (by simp) (by simp)
      | bits widths => exact heads.bind_expected expectedPaired (.bits widths) (by simp) (by simp)
      | product each => exact heads.bind_expected expectedPaired (.product each) (by simp) (by simp)
  | unit =>
      cases foundLike with
      | var paired => exact heads.bind_found paired .unit (by simp) (by simp)
      | unit => exact agree
      | bit => exact refuse _
      | bits _ => exact refuse _
      | product _ => exact refuse _
  | bit =>
      cases foundLike with
      | var paired => exact heads.bind_found paired .bit (by simp) (by simp)
      | bit => exact agree
      | bits widths => exact equate_together tracks heads.alike widths tracks.one
      | unit => exact refuse _
      | product _ => exact refuse _
  | bits expectedWidths =>
      cases foundLike with
      | var paired => exact heads.bind_found paired (.bits expectedWidths) (by simp) (by simp)
      | bit => exact equate_together tracks heads.alike expectedWidths tracks.one
      | bits widths => exact equate_together tracks heads.alike widths expectedWidths
      | unit => exact refuse _
      | product _ => exact refuse _
  | @product rights otherRights rightsLike =>
      cases foundLike with
      | var paired => exact heads.bind_found paired (.product rightsLike) (by simp) (by simp)
      | @product lefts otherLefts leftsLike =>
          rw [unifyHeads, unifyHeads, leftsLike.length_eq, rightsLike.length_eq]
          split
          · exact members lefts otherLefts rights otherRights rfl rfl leftsLike rightsLike
          · exact refuse _
      | unit => exact refuse _
      | bit => exact refuse _
      | bits _ => exact refuse _

private theorem unifyWithin_together (tracks : likeness.Tracks pending) : ∀ (levels : Nat)
    {found otherFound expected otherExpected : Ty} {state partner : Unification},
      state.Like likeness pending partner → found.Like likeness otherFound →
      expected.Like likeness otherExpected → found.Over state.types → expected.Over state.types →
      Together likeness pending state partner (unifyWithin levels found expected state)
        (unifyWithin levels otherFound otherExpected partner) := by
  intro levels
  induction levels with
  | zero => exact fun alike _ _ _ _ => .failed ⟨rfl, .refl alike⟩
  | succ levels ih =>
      intro found otherFound expected otherExpected state partner alike foundLike expectedLike
        foundOver expectedOver
      rw [unifyWithin_succ, unifyWithin_succ]
      obtain ⟨foundHead, otherFoundHead, first, otherFirst, foundRun, otherFoundRun, founds⟩ :=
        representative_together alike foundLike foundOver
      obtain ⟨expectedHead, otherExpectedHead, middle, otherMiddle, expectedRun, otherExpectedRun,
        expecteds⟩ := representative_together founds.onward.like expectedLike
          (founds.walk.over_iff.mpr expectedOver)
      rw [bind_of_ok foundRun, bind_of_ok otherFoundRun, bind_of_ok expectedRun,
        bind_of_ok otherExpectedRun]
      have heads : HeadPairs likeness pending middle otherMiddle foundHead otherFoundHead
          expectedHead otherExpectedHead :=
        ⟨expecteds.onward.like, founds.isHead.shortened expecteds.walk,
          founds.otherIsHead.shortened expecteds.otherWalk, expecteds.isHead,
          expecteds.otherIsHead⟩
      apply Together.later (founds.onward.trans expecteds.onward)
      apply unifyHeads_together tracks heads founds.like expecteds.like
      rintro lefts otherLefts rights otherRights rfl rfl leftsLike rightsLike
      have owned : ∀ pair ∈ lefts.zip rights, pair.1.Over middle.types ∧ pair.2.Over middle.types := by
        intro pair inside
        obtain ⟨inLefts, inRights⟩ := List.of_mem_zip inside
        exact ⟨heads.found.owned.of_mem inLefts, heads.expected.owned.of_mem inRights⟩
      have pairs := forall₂_imp_of_mem (forall₂_zip_zip leftsLike rightsLike)
        fun pair inside other like => And.intro like (owned pair inside)
      apply InStep.forM pairs ?_ middle otherMiddle (.refl heads.alike)
      rintro pair other ⟨⟨lefts, rights⟩, leftOver, rightOver⟩ current otherCurrent onward
      exact (ih onward.like lefts rights (onward.first.over_iff.mpr leftOver)
        (onward.first.over_iff.mpr rightOver)).later onward

/-- Unification of types that are alike goes the same way in states that are alike. -/
theorem unify_together (tracks : likeness.Tracks pending) (alike : state.Like likeness pending partner)
    (foundLike : found.Like likeness otherFound)
    (expectedLike : expected.Like likeness otherExpected) (foundOver : found.Over state.types)
    (expectedOver : expected.Over state.types) :
    Together likeness pending state partner (unify found expected state)
      (unify otherFound otherExpected partner) := by
  let limit := state.types.unfoldLimit [found, expected]
  let otherLimit := partner.types.unfoldLimit [otherFound, otherExpected]
  -- Neither run gives up, so both are the same with the longer of the two limits.
  have same : unifyWithin (max limit otherLimit) found expected state =
      unify found expected state :=
    (unifyWithin_outlasts (Nat.le_max_left limit otherLimit) found expected).eq_of_ne
      (alike.types.wellFormed.unify_ne_fault state.constraints foundOver expectedOver _)
  have otherSame : unifyWithin (max limit otherLimit) otherFound otherExpected partner =
      unify otherFound otherExpected partner :=
    (unifyWithin_outlasts (Nat.le_max_right limit otherLimit) otherFound otherExpected).eq_of_ne
      (alike.types.otherWellFormed.unify_ne_fault partner.constraints
        (alike.types.isOver foundLike foundOver) (alike.types.isOver expectedLike expectedOver) _)
  rw [← same, ← otherSame]
  exact unifyWithin_together tracks _ alike foundLike expectedLike foundOver expectedOver

end Unification

end CircuitWidths
