import CircuitWidths.Proofs.Ty.Symmetry

/-!
# Unification is idempotent

Types that have the same resolved form are unified without a link and without an equation
(`unifyWithin_idle`).  What a run has linked stays linked.  So if the run is repeated, it finds two
such types wherever it has met a variable before, and everywhere else it meets the same heads and
compares the same widths again (`Repeatable`).
-/

namespace CircuitWidths

namespace TypeStore

variable {store later : TypeStore} {ty other third head otherHead resolved : Ty}

private theorem Same.symm (same : store.Same ty other) : store.Same other ty := by
  obtain ⟨head, leads, otherLeads⟩ := same
  exact ⟨head, otherLeads, leads⟩

private theorem Same.trans (first : store.Same ty other) (second : store.Same other third) :
    store.Same ty third := by
  obtain ⟨head, leads, otherLeads⟩ := first
  obtain ⟨_, alsoLeads, thirdLeads⟩ := second
  rw [← otherLeads.unique alsoLeads] at thirdLeads
  exact ⟨head, leads, thirdLeads⟩

private theorem Leads.same (leads : store.Leads ty head) : store.Same ty head :=
  ⟨head, leads, leads.head_self⟩

private theorem Resolves.of_same (resolves : store.Resolves ty resolved)
    (same : store.Same ty other) : store.Resolves other resolved := by
  obtain ⟨head, leads, otherLeads⟩ := same
  cases resolves with
  | leaf found flat =>
      obtain rfl := found.unique leads
      exact .leaf otherLeads flat
  | product found length each =>
      obtain rfl := found.unique leads
      exact .product otherLeads length each

/-- Only types over the store have a resolved form. -/
theorem Resolves.start_over (resolves : store.Resolves ty resolved) : ty.Over store := by
  induction resolves with
  | @leaf ty head leads flat =>
      cases head with
      | unit | bit | bits _ => exact leads.over_of_head (by simp [Ty.Over, Ty.vars])
      | var id => exact leads.over_of_head leads.unlinked.owns.over_var
      | product members => exact (flat members rfl).elim
  | @product ty members results leads length _ ih =>
      apply leads.over_of_head
      apply over_product
      intro member inside
      have each : List.Forall₂ (fun member _ => member.Over store) members results :=
        List.forall₂_iff_zip.mpr ⟨length, ih⟩
      obtain ⟨_, owned⟩ := forall₂_exists_right each inside
      exact owned

/-- The two types have the same resolved form. -/
def Agree (store : TypeStore) (ty other : Ty) : Prop :=
  ∃ resolved, store.Resolves ty resolved ∧ store.Resolves other resolved

private theorem Same.agree (same : store.Same ty other) (wellFormed : store.WellFormed)
    (owned : ty.Over store) : store.Agree ty other := by
  have resolves := resolves_fill wellFormed owned
  exact ⟨_, resolves, resolves.of_same same⟩

private theorem Agree.both_over (agree : store.Agree ty other) :
    ty.Over store ∧ other.Over store := by
  obtain ⟨_, resolves, otherResolves⟩ := agree
  exact ⟨resolves.start_over, otherResolves.start_over⟩

/-- Types that agree have the same head, or products for heads whose members agree. -/
theorem Agree.heads (agree : store.Agree ty other) (leads : store.Leads ty head)
    (otherLeads : store.Leads other otherHead) :
    (head = otherHead ∧ ∀ members, head ≠ .product members) ∨
      ∃ members others, head = .product members ∧ otherHead = .product others ∧
        List.Forall₂ store.Agree members others := by
  obtain ⟨resolved, resolves, otherResolves⟩ := agree
  cases resolves with
  | leaf found flat =>
      obtain rfl := found.unique leads
      cases otherResolves with
      | leaf otherFound _ => exact .inl ⟨otherFound.unique otherLeads, flat⟩
      | product _ _ _ => exact (flat _ rfl).elim
  | @product _ members results found length each =>
      obtain rfl := found.unique leads
      cases otherResolves with
      | leaf _ flat => exact (flat _ rfl).elim
      | @product _ others _ otherFound otherLength otherEach =>
          obtain rfl := otherFound.unique otherLeads
          refine .inr ⟨members, others, rfl, rfl, ?_⟩
          have firsts := List.forall₂_iff_zip.mpr ⟨length, each⟩
          have seconds := List.forall₂_iff_zip.mpr ⟨otherLength, otherEach⟩
          exact forall₂_compose firsts seconds.flip
            fun _ result _ first second => ⟨result, first, second⟩

private theorem UpheldBy.over (upheld : store.UpheldBy later) (owned : ty.Over store) :
    ty.Over later :=
  fun id inside => upheld.owns (owned id inside)

/-- A head that is not a variable stays a head. -/
theorem UpheldBy.leads_concrete (upheld : store.UpheldBy later) (leads : store.Leads ty head)
    (concrete : ∀ id, head ≠ .var id) : later.Leads ty head :=
  upheld.leads leads (.concrete concrete)

/-- Unification makes no variables. -/
theorem Stable.sameVars (origin : TypeStore) :
    Stable (fun store => store.WellFormed ∧ origin.SameVars store) fun _ => True where
  wellFormed := fun held => held.1
  shortened := fun held walked => ⟨walked.wellFormed held.1, held.2.trans walked.sameVars⟩
  assigned := fun held _ _ assigned wellFormed => ⟨wellFormed, held.2.trans assigned.sameVars⟩
  leads := fun _ _ _ => trivial
  members := fun _ _ _ => trivial

end TypeStore

namespace Unification

open TypeStore

variable {origin later : TypeStore} {kept : Constraints} {state middle next : Unification}
  {found expected ty : Ty} {id : TyVar} {unifyPair : Ty → Ty → UnifyM Unit}

/-- The only failure is that levels run out. -/
def GivesUp (error : UnifyError) (_ : Unification) : Prop := error = .fault (.misuse .cyclicLinks)

/-- Links of the store were shortened, and these are the constraints. -/
structure Rests (origin : TypeStore) (kept : Constraints) (state : Unification) : Prop where
  walked : Shortened origin state.types
  constraints : state.constraints = kept

/-- Unification begins by looking up the heads of the two types. -/
theorem Rests.heads (rests : Rests origin kept state) (wellFormed : origin.WellFormed)
    (foundOver : found.Over origin) (expectedOver : expected.Over origin) :
    ∃ foundHead expectedHead middle, origin.Leads found foundHead ∧
      origin.Leads expected expectedHead ∧ Rests origin kept middle ∧
      ∀ levels, unifyWithin (levels + 1) found expected state =
        unifyHeads (unifyWithin levels) foundHead expectedHead middle := by
  obtain ⟨foundHead, expectedHead, first, middle, foundRun, expectedRun, foundLeads, expectedLeads,
    walked⟩ := heads_run (rests.walked.wellFormed wellFormed)
      (rests.walked.over_iff.mpr foundOver) (rests.walked.over_iff.mpr expectedOver)
  have firstKept := constraints_onTypes (representative found) state
  have middleKept := constraints_onTypes (representative expected) first
  rw [foundRun] at firstKept
  rw [expectedRun] at middleKept
  refine ⟨foundHead, expectedHead, middle, rests.walked.leads_iff.mp foundLeads,
    rests.walked.leads_iff.mp expectedLeads, ⟨rests.walked.trans walked, ?_⟩, fun levels => ?_⟩
  · exact (middleKept.trans firstKept).trans rests.constraints
  · rw [unifyWithin_succ, bind_of_ok foundRun, bind_of_ok expectedRun]

/-! ## Types that agree -/

/-- Types that agree are unified by looking them up. -/
theorem unifyWithin_idle (wellFormed : origin.WellFormed) (skips : kept.keepTrivial = false)
    (levels : Nat) : ∀ {found expected : Ty}, origin.Agree found expected →
      ∀ state, Rests origin kept state →
        Ends (unifyWithin levels found expected) state (fun _ next => Rests origin kept next)
          GivesUp := by
  induction levels with
  | zero => exact fun _ state _ => .throw rfl
  | succ levels ih =>
      intro found expected agree state rests
      obtain ⟨foundHead, expectedHead, middle, foundLeads, expectedLeads, restsThere, run⟩ :=
        rests.heads wellFormed agree.both_over.1 agree.both_over.2
      rw [Ends, run]
      rcases agree.heads foundLeads expectedLeads with ⟨rfl, flat⟩ | ⟨lefts, rights, rfl, rfl, each⟩
      · cases foundHead with
        | unit | bit => exact restsThere
        | bits width =>
            refine ⟨restsThere.walked, ?_⟩
            show middle.constraints.emitEqual width width = kept
            rw [restsThere.constraints, Constraints.emitEqual, if_pos ⟨rfl, skips⟩]
        | product members => exact (flat members rfl).elim
        | var id =>
            rw [unifyHeads, if_pos rfl]
            exact restsThere
      · rw [unifyHeads, if_pos each.length_eq]
        exact Ends.forM (fun pair inside => ih (List.forall₂_zip each inside)) middle restsThere

/-! ## Types that were unified -/

private theorem bindVar_same (wellFormed : state.types.WellFormed)
    (linkable : Linkable state.types id ty) (run : bindVar id ty state = .ok () next) :
    next.types.Same (.var id) ty := by
  by_cases occurs : state.types.Occurs id ty
  · obtain ⟨_, refused, _⟩ := bindVar_refused wellFormed linkable occurs
    rw [refused] at run
    cases run
  · obtain ⟨middle, last, linked, shortened, assigned, lastWellFormed, _⟩ :=
      bindVar_linked wellFormed linkable occurs
    obtain rfl : last = next := by
      rw [linked] at run
      cases run
      rfl
    have owned := assigned.sameVars.over_iff.mpr (shortened.over_iff.mpr linkable.owned)
    obtain ⟨head, leads⟩ := lastWellFormed.exists_leads owned
    exact ⟨head, .follow (assigned.linked_iff.mpr (.inl ⟨rfl, rfl⟩)) leads, leads⟩

/-- A run can be repeated in every store that upholds what it has left behind: it succeeds there,
links nothing and adds the equations that it has added before. -/
def Repeatable (unifyPair : Ty → Ty → UnifyM Unit)
    (comparePair : Ty → Ty → Unification → List Comparison) : Prop :=
  ∀ {found expected : Ty} {state next : Unification} {later : TypeStore},
    state.types.WellFormed → found.Over state.types → expected.Over state.types →
    unifyPair found expected state = .ok () next → next.types.UpheldBy later →
    ∀ {kept : Constraints}, kept.keepTrivial = false → ∀ current, Rests later kept current →
      Ends (unifyPair found expected) current
        (fun _ last => Rests later (kept.after (comparePair found expected state)) last) GivesUp

/-- Pairs in turn can be repeated if each of them can. -/
theorem Repeatable.along {comparePair : Ty → Ty → Unification → List Comparison}
    (repeatable : Repeatable unifyPair comparePair)
    (upholds : ∀ (store : TypeStore) (found expected : Ty),
      Preserves (fun state => store.UpheldBy state.types) (unifyPair found expected) fun _ => True)
    (pairs : List (Ty × Ty)) : ∀ {state : Unification}, state.types.WellFormed →
      (∀ pair ∈ pairs, pair.1.Over state.types ∧ pair.2.Over state.types) →
      pairs.forM (fun pair => unifyPair pair.1 pair.2) state = .ok () next →
      next.types.UpheldBy later → ∀ {kept : Constraints}, kept.keepTrivial = false →
      ∀ current, Rests later kept current →
        Ends (pairs.forM fun pair => unifyPair pair.1 pair.2) current
          (fun _ last => Rests later (kept.after (comparisonsAlong unifyPair comparePair pairs state))
            last) GivesUp := by
  induction pairs with
  | nil =>
      intro state _ _ _ _ kept _ current rests
      rw [comparisonsAlong, Constraints.after_nil]
      exact .pure rests
  | cons pair pairs ih =>
      intro state wellFormed owned run upheld kept skips current rests
      obtain ⟨⟨foundOver, expectedOver⟩, restOver⟩ := List.forall_mem_cons.mp owned
      obtain ⟨_, middle, headRun, tailRun⟩ := exists_of_bind_ok run
      change unifyPair pair.1 pair.2 state = .ok () middle at headRun
      have headUpheld : state.types.UpheldBy middle.types :=
        ((upholds state.types pair.1 pair.2 state (.refl wellFormed)).returned headRun).1
      have tailKeeps : Preserves (fun state => middle.types.UpheldBy state.types)
          (pairs.forM fun pair => unifyPair pair.1 pair.2) fun _ => True :=
        .forM fun other _ => upholds middle.types other.1 other.2
      have tailUpheld : middle.types.UpheldBy next.types :=
        ((tailKeeps middle (.refl headUpheld.wellFormed)).returned tailRun).1
      have compared : comparisonsAlong unifyPair comparePair (pair :: pairs) state =
          comparePair pair.1 pair.2 state ++
            comparisonsAlong unifyPair comparePair pairs middle := by
        rw [comparisonsAlong, headRun]
      rw [compared, Constraints.after_append]
      refine .bind (repeatable wellFormed foundOver expectedOver headRun (tailUpheld.trans upheld)
        skips current rests) fun _ reached restsThere => ?_
      have skipsThere : (kept.after (comparePair pair.1 pair.2 state)).keepTrivial = false := skips
      exact ih headUpheld.wellFormed (fun other inside => And.imp headUpheld.over headUpheld.over
        (restOver other inside)) tailRun upheld skipsThere reached restsThere

private theorem unifyWithin_repeatable (levels : Nat) :
    Repeatable (unifyWithin levels) (comparisonsWithin levels) := by
  induction levels with
  | zero => exact fun _ _ _ _ _ _ _ current _ => .throw rfl
  | succ levels ih =>
      intro found expected state next later wellFormed foundOver expectedOver run upheld kept skips
        current rests
      obtain ⟨foundHead, expectedHead, first, middle, foundRun, expectedRun, foundLeads,
        expectedLeads, walked⟩ := heads_run wellFormed foundOver expectedOver
      have nextUpheld : state.types.UpheldBy next.types :=
        ((unifyWithin_upholds state.types (levels + 1) found expected state
          (.refl wellFormed)).returned run).1
      have laterUpheld := nextUpheld.trans upheld
      have middleWellFormed := walked.wellFormed wellFormed
      have foundIsHead : IsHead middle.types foundHead := IsHead.shortened
        ⟨foundLeads.owned wellFormed foundOver, foundLeads.head_self⟩ walked
      have expectedIsHead : IsHead middle.types expectedHead := IsHead.shortened
        ⟨expectedLeads.owned wellFormed expectedOver, expectedLeads.head_self⟩ walked
      -- Where the run has met a variable, both types lead to the same head from then on.
      have idle : meet foundHead expectedHead = .refuse .mismatch →
          next.types.Same foundHead expectedHead →
          Ends (unifyWithin (levels + 1) found expected) current (fun _ last => Rests later
            (kept.after (comparisonsWithin (levels + 1) found expected state)) last) GivesUp := by
        intro met headsSame
        rw [comparisonsWithin_succ foundRun expectedRun, met, Meeting.comparisons,
          Constraints.after_nil]
        have same : next.types.Same found expected :=
          ((nextUpheld.same foundLeads.same).trans headsSame).trans
            (nextUpheld.same expectedLeads.same).symm
        exact unifyWithin_idle upheld.wellFormed skips (levels + 1)
          ((upheld.same same).agree upheld.wellFormed (laterUpheld.over foundOver)) current rests
      rw [unifyWithin_succ, bind_of_ok foundRun, bind_of_ok expectedRun] at run
      have encounter : Encounter (unifyWithin levels) foundHead expectedHead _ :=
        unifyHeads_encounter foundHead expectedHead
      generalize step : unifyHeads (unifyWithin levels) foundHead expectedHead = heads at run encounter
      cases encounter with
      | same id =>
          cases run
          exact idle (meet_var_left id _) foundIsHead.self.same
      | linkFound differs =>
          exact idle (meet_var_left _ _) (bindVar_same middleWellFormed
            (foundIsHead.linkable expectedIsHead differs) run)
      | linkExpected differs =>
          exact idle (meet_var_right _ _) (bindVar_same middleWellFormed
            (expectedIsHead.linkable foundIsHead differs) run).symm
      | meeting foundConcrete expectedConcrete =>
          obtain ⟨foundAgain, expectedAgain, reached, againFound, againExpected, restsThere, again⟩ :=
            rests.heads upheld.wellFormed (laterUpheld.over foundOver) (laterUpheld.over expectedOver)
          obtain rfl := (laterUpheld.leads_concrete foundLeads foundConcrete).unique againFound
          obtain rfl :=
            (laterUpheld.leads_concrete expectedLeads expectedConcrete).unique againExpected
          rw [Ends, again, step, comparisonsWithin_succ foundRun expectedRun]
          cases meeting : meet foundHead expectedHead with
          | agree =>
              rw [Meeting.comparisons, Constraints.after_nil]
              exact restsThere
          | compare comparison =>
              refine ⟨restsThere.walked, ?_⟩
              rw [Meeting.comparisons, ← Constraints.emitEqual_eq_after, ← restsThere.constraints]
          | members pairs =>
              rw [meeting] at run
              exact ih.along (fun store => unifyWithin_upholds store levels) pairs middleWellFormed
                (over_of_meet_members meeting foundIsHead.owned expectedIsHead.owned) run upheld skips
                reached restsThere
          | refuse error =>
              rw [meeting] at run
              cases run

/-! ## Types that can be unified at all -/

private theorem bindVar_over (wellFormed : state.types.WellFormed)
    (run : bindVar id ty state = .ok () next) : ty.Over state.types := by
  obtain ⟨answer, middle, searchRun, assignRun⟩ := exists_of_bind_ok run
  have searched := (onTypes_tries (occursWithin_tries wellFormed _ ty state.types (.refl _))).returned
    searchRun
  cases answer with
  | true => cases assignRun
  | false =>
      have absent : ty.Over state.types ∧ ¬ state.types.Occurs id ty := by simpa using searched.2
      exact absent.1

/-- Heads that meet without being refused are over the store if the members are that are unified. -/
theorem over_of_carryOut
    (members : ∀ pairs : List (Ty × Ty),
      pairs.forM (fun pair => unifyPair pair.1 pair.2) state = .ok () next →
        ∀ pair ∈ pairs, pair.1.Over state.types ∧ pair.2.Over state.types)
    (run : (meet found expected).carryOut unifyPair state = .ok () next) :
    found.Over state.types ∧ expected.Over state.types := by
  cases found with
  | unit | bit | bits _ =>
      cases expected with
      | unit | bit | bits _ => simp [Ty.Over, Ty.vars]
      | product _ | var _ => cases run
  | var _ =>
      rw [meet_var_left] at run
      cases run
  | product lefts =>
      cases expected with
      | unit | bit | bits _ | var _ => cases run
      | product rights =>
          rw [meet] at run
          split at run
          · next lengths =>
              have each := members _ run
              have paired : List.Forall₂ (fun left right => left.Over state.types ∧
                  right.Over state.types) lefts rights :=
                List.forall₂_iff_zip.mpr ⟨lengths, fun inside => each _ inside⟩
              refine ⟨over_product fun left inside => ?_, over_product fun right inside => ?_⟩
              · obtain ⟨_, both⟩ := forall₂_exists_right paired inside
                exact both.1
              · obtain ⟨_, both⟩ := forall₂_exists_right paired.flip inside
                exact both.2
          · cases run

/-- Only types over the store are unified. -/
theorem unifyWithin_over (levels : Nat) : ∀ {found expected : Ty} {state next : Unification},
    state.types.WellFormed → unifyWithin levels found expected state = .ok () next →
      found.Over state.types ∧ expected.Over state.types := by
  induction levels with
  | zero =>
      intro found expected state next _ run
      cases run
  | succ levels ih =>
      have along : ∀ (pairs : List (Ty × Ty)) {state next : Unification}, state.types.WellFormed →
          pairs.forM (fun pair => unifyWithin levels pair.1 pair.2) state = .ok () next →
          ∀ pair ∈ pairs, pair.1.Over state.types ∧ pair.2.Over state.types := by
        intro pairs
        induction pairs with
        | nil =>
            intro state next _ _ pair inside
            cases inside
        | cons pair pairs tail =>
            intro state next wellFormed run
            obtain ⟨_, middle, headRun, tailRun⟩ := exists_of_bind_ok run
            obtain ⟨middleWellFormed, sameVars⟩ := (((Stable.sameVars state.types).unifyWithin_keeps
              levels trivial trivial state ⟨wellFormed, .refl _⟩).returned headRun).1
            refine List.forall_mem_cons.mpr ⟨ih wellFormed headRun, fun other inside => ?_⟩
            exact (tail middleWellFormed tailRun other inside).imp sameVars.over_iff.mp
              sameVars.over_iff.mp
      intro found expected state next wellFormed run
      rw [unifyWithin_succ] at run
      obtain ⟨foundHead, first, foundRun, run⟩ := exists_of_bind_ok run
      obtain ⟨expectedHead, middle, expectedRun, run⟩ := exists_of_bind_ok run
      obtain ⟨walked, foundLeads⟩ :=
        (onTypes_tries (representative_tries wellFormed found)).returned foundRun
      obtain ⟨walkedOn, expectedLeads⟩ :=
        (onTypes_tries (walked.representative_tries wellFormed expected)).returned expectedRun
      suffices owned : foundHead.Over middle.types ∧ expectedHead.Over middle.types from
        ⟨foundLeads.over_of_head (walkedOn.over_iff.mp owned.1),
          expectedLeads.over_of_head (walkedOn.over_iff.mp owned.2)⟩
      have middleWellFormed := walkedOn.wellFormed wellFormed
      have varOver : ∀ {ty : Ty} {id : TyVar}, state.types.Leads ty (.var id) →
          (Ty.var id).Over middle.types :=
        fun leads => walkedOn.over_iff.mpr leads.unlinked.owns.over_var
      have encounter : Encounter (unifyWithin levels) foundHead expectedHead _ :=
        unifyHeads_encounter foundHead expectedHead
      generalize unifyHeads (unifyWithin levels) foundHead expectedHead = heads at run encounter
      cases encounter with
      | same id => exact ⟨varOver foundLeads, varOver expectedLeads⟩
      | linkFound _ => exact ⟨varOver foundLeads, bindVar_over middleWellFormed run⟩
      | linkExpected _ => exact ⟨bindVar_over middleWellFormed run, varOver expectedLeads⟩
      | meeting _ _ =>
          exact over_of_carryOut (fun pairs pairsRun => along pairs middleWellFormed pairsRun) run

/-! ## Unification run twice -/

/-- Unification of types that agree succeeds and only shortens links. -/
theorem unify_of_agree (wellFormed : state.types.WellFormed)
    (skips : state.constraints.keepTrivial = false) (agree : state.types.Agree found expected) :
    ∃ next, unify found expected state = .ok () next ∧
      Rests state.types state.constraints next := by
  have noFault := wellFormed.unify_ne_fault state.constraints agree.both_over.1 agree.both_over.2
  have ends := unifyWithin_idle wellFormed skips (state.types.unfoldLimit [found, expected]) agree
    state ⟨.refl _, rfl⟩
  cases run : unify found expected state with
  | ok _ next => exact ⟨next, rfl, ends.returned run⟩
  | error error next =>
      obtain rfl : error = .fault (.misuse .cyclicLinks) := ends.failed run
      exact (noFault _ next run).elim

/-- Unification that has succeeded succeeds again, shortens links and compares the same widths. -/
theorem unify_again (wellFormed : state.types.WellFormed)
    (skips : state.constraints.keepTrivial = false)
    (run : unify found expected state = .ok () next) :
    ∃ compared last, next.constraints = state.constraints.after compared ∧
      unify found expected next = .ok () last ∧
      Rests next.types (next.constraints.after compared) last := by
  obtain ⟨foundOver, expectedOver⟩ := unifyWithin_over _ wellFormed run
  have upheld : state.types.UpheldBy next.types :=
    ((unifyWithin_upholds state.types _ found expected state (.refl wellFormed)).returned run).1
  have noFault := upheld.wellFormed.unify_ne_fault next.constraints (upheld.over foundOver)
    (upheld.over expectedOver)
  -- Each run counts its own levels; both can be given those of the other one as well.
  let levels := max (state.types.unfoldLimit [found, expected])
    (next.types.unfoldLimit [found, expected])
  have first : unifyWithin levels found expected state = .ok () next := by
    rw [← run]
    refine (unifyWithin_outlasts (le_max_left _ _) found expected).eq_of_ne fun other failed => ?_
    cases run.symm.trans failed
  have second : unifyWithin levels found expected next = unify found expected next :=
    (unifyWithin_outlasts (le_max_right _ _) found expected).eq_of_ne (noFault (.misuse .cyclicLinks))
  have constraints := constraints_unifyWithin levels found expected state
  rw [first] at constraints
  have skipsNext : next.constraints.keepTrivial = false :=
    (congrArg Constraints.keepTrivial constraints).trans skips
  have ends := unifyWithin_repeatable levels wellFormed foundOver expectedOver first
    (.refl upheld.wellFormed) skipsNext next ⟨.refl _, rfl⟩
  cases again : unify found expected next with
  | ok _ last => exact ⟨_, last, constraints, rfl, ends.returned (second.trans again)⟩
  | error error last =>
      obtain rfl : error = .fault (.misuse .cyclicLinks) := ends.failed (second.trans again)
      exact (noFault _ last again).elim

/-- **Unification is idempotent.**  In every store that operations have made, while trivial equations
are skipped: types that already resolve to the same type are unified without an equation, and no type
resolves to another one afterwards.  And unification that succeeds succeeds again on what it has left
behind: no type resolves to another one then, and the same equations are added once more. -/
theorem unify_idempotent {owner : Nat} {store : TypeStore}
    (evolves : (TypeStore.empty owner).Evolves store) (constraints : Constraints)
    (skips : constraints.keepTrivial = false) (found expected : Ty) :
    (∀ resolved, returned? (resolve found store) = some resolved →
      returned? (resolve expected store) = some resolved →
      ∃ next, unify found expected ⟨store, constraints⟩ = .ok () next ∧
        next.constraints = constraints ∧
        ∀ ty, returned? (resolve ty next.types) = returned? (resolve ty store)) ∧
    ∀ next, unify found expected ⟨store, constraints⟩ = .ok () next →
      ∃ added last, next.constraints = { constraints with pending := constraints.pending ++ added } ∧
        unify found expected next = .ok () last ∧
        last.constraints = { constraints with pending := next.constraints.pending ++ added } ∧
        ∀ ty, returned? (resolve ty last.types) = returned? (resolve ty next.types) := by
  have wellFormed := evolves.wellFormed
  constructor
  · intro resolved foundResolved expectedResolved
    have agree : store.Agree found expected :=
      ⟨resolved, ((returned?_resolve_eq_some wellFormed).mp foundResolved).2,
        ((returned?_resolve_eq_some wellFormed).mp expectedResolved).2⟩
    obtain ⟨next, run, rests⟩ :
        ∃ next, unify found expected ⟨store, constraints⟩ = .ok () next ∧
          Rests store constraints next := unify_of_agree wellFormed skips agree
    exact ⟨next, run, rests.constraints, rests.walked.returned?_resolve wellFormed⟩
  · intro next run
    obtain ⟨compared, last, nextConstraints, again, rests⟩ := unify_again wellFormed skips run
    have nextWellFormed : next.types.WellFormed :=
      ((unifyWithin_upholds store _ found expected _ (.refl wellFormed)).returned run).1.wellFormed
    refine ⟨_, last, nextConstraints, again, ?_, rests.walked.returned?_resolve nextWellFormed⟩
    rw [rests.constraints, nextConstraints]
    rfl

/-- The first run links both variables to a bus, which then meets a single bit.  The second run finds
nothing to link, and the bus meets the bit again. -/
theorem unify_idempotent_linked :
    let var (index : Nat) : Ty := .var ⟨0, index⟩
    let made := (TypeStore.empty 0).fresh.2.fresh.2
    let found : Ty := .product [var 0, var 1, var 0]
    let expected : Ty := .product [.bits (.var "n"), var 0, .bit]
    let first := unify found expected ⟨made, .empty false⟩
    hasReturned first = true ∧
      (finalState first).constraints.pending = [.binary .eq (.var "n") (.int 1)] ∧
      ∀ next, first = .ok () next →
        ∃ added last, next.constraints = ⟨added, false⟩ ∧ unify found expected next = .ok () last ∧
          last.constraints = ⟨next.constraints.pending ++ added, false⟩ ∧
          ∀ ty, returned? (resolve ty last.types) = returned? (resolve ty next.types) := by
  intro var made found expected first
  have evolves : (TypeStore.empty 0).Evolves made :=
    (Relation.ReflTransGen.single .fresh).tail .fresh
  have succeeds : hasReturned first = true ∧
      (finalState first).constraints.pending = [.binary .eq (.var "n") (.int 1)] := by
    decide +kernel
  exact ⟨succeeds.1, succeeds.2, (unify_idempotent evolves (.empty false) rfl found expected).2⟩

end Unification

end CircuitWidths
