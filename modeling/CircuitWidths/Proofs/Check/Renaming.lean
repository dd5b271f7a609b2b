import CircuitWidths.Proofs.Check.Numbering
import CircuitWidths.Proofs.Check.TrivialEquations

/-!
# Renamed typed circuits

Generated widths and type variables have no names of their own, only numbers.  A renaming pairs the
numbers of two checks off.  What mentions only numbers that the renaming leaves alone is its own
renamed form, and so are the typed nodes of a session under a renaming that moves only numbers that
have not been used yet.
-/

namespace CircuitWidths

open CheckM Circuit TypeStore

/-- Widths and variables were only added. -/
structure Checker.Extends (checker next : Checker) : Prop where
  nextWidth : checker.nextWidth ≤ next.nextWidth
  types : checker.types.Precedes next.types

theorem Checker.Extends.refl (checker : Checker) : checker.Extends checker := ⟨le_rfl, .refl _⟩

private theorem Checker.Extends.trans {checker middle next : Checker}
    (first : checker.Extends middle) (second : middle.Extends next) : checker.Extends next :=
  ⟨first.nextWidth.trans second.nextWidth, first.types.trans second.types⟩

/-- Which generated widths and which type variables stand for each other, by their numbers.  Each
has at most one partner on either side. -/
structure Renaming where
  widths : Nat → Nat → Prop
  vars : Nat → Nat → Prop
  widths_unique : Relator.BiUnique widths
  vars_unique : Relator.BiUnique vars

namespace Renaming

variable (renames : Renaming) (stem : String)

/-- Generated widths are renamed by their numbers, and all other names stay the same. -/
def Names (name other : String) : Prop :=
  (∃ index partner, renames.widths index partner ∧ name = stem ++ index.repr ∧
    other = stem ++ partner.repr) ∨
  (name = other ∧ ∀ index : Nat, name ≠ stem ++ index.repr)

/-- Type variables are renamed by their numbers. -/
structure Vars (id partner : TyVar) : Prop where
  owner : id.owner = partner.owner
  index : renames.vars id.index partner.index

/-- A renaming gives each name one other name, in both directions. -/
theorem names_unique : Relator.BiUnique (renames.Names stem) := by
  constructor
  · rintro first second other
      (⟨index, partner, paired, rfl, rfl⟩ | ⟨rfl, written⟩)
      (⟨otherIndex, otherPartner, alsoPaired, rfl, same⟩ | ⟨rfl, alsoWritten⟩)
    · obtain rfl := generated_injective stem same
      rw [renames.widths_unique.1 paired alsoPaired]
    · exact (alsoWritten partner rfl).elim
    · exact (written otherPartner same).elim
    · rfl
  · rintro first second other
      (⟨index, partner, paired, rfl, rfl⟩ | ⟨rfl, written⟩)
      (⟨otherIndex, otherPartner, alsoPaired, same, rfl⟩ | ⟨rfl, alsoWritten⟩)
    · obtain rfl := generated_injective stem same
      rw [renames.widths_unique.2 paired alsoPaired]
    · exact (alsoWritten index rfl).elim
    · exact (written otherIndex same).elim
    · rfl

/-- A renaming gives each type variable one other variable, in both directions. -/
theorem vars_biUnique : Relator.BiUnique renames.Vars := by
  constructor
  · rintro ⟨owner, index⟩ ⟨otherOwner, otherIndex⟩ partner first second
    obtain rfl : owner = otherOwner := first.owner.trans second.owner.symm
    obtain rfl : index = otherIndex := renames.vars_unique.1 first.index second.index
    rfl
  · rintro id ⟨owner, index⟩ ⟨otherOwner, otherIndex⟩ first second
    obtain rfl : owner = otherOwner := first.owner.symm.trans second.owner
    obtain rfl : index = otherIndex := renames.vars_unique.2 first.index second.index
    rfl

/-- Widths and variables are renamed in types. -/
def likeness : Likeness where
  width := Static.Expr.Renamed (renames.Names stem)
  var := renames.Vars
  unique := renames.vars_biUnique

/-- Renamed types. -/
abbrev Tys : Ty → Ty → Prop := Ty.Like (renames.likeness stem)

/-- Renamed conditions. -/
abbrev Conditions : Static.Expr → Static.Expr → Prop := Static.Expr.Renamed (renames.Names stem)

/-- Numbers below `kept` stay, and those from `first` on become those from `moved` on. -/
def Shift (kept first moved index partner : Nat) : Prop :=
  (index < kept ∧ partner = index) ∨ (first ≤ index ∧ partner + first = index + moved)

private theorem shift_unique {kept first moved : Nat} (below : kept ≤ first)
    (otherBelow : kept ≤ moved) : Relator.BiUnique (Shift kept first moved) := by
  constructor
  · rintro index other partner (⟨low, same⟩ | ⟨high, same⟩) (⟨otherLow, otherSame⟩ |
      ⟨otherHigh, otherSame⟩) <;> omega
  · rintro index partner other (⟨low, same⟩ | ⟨high, same⟩) (⟨otherLow, otherSame⟩ |
      ⟨otherHigh, otherSame⟩) <;> omega

/-- Widths and variables that were made before `origin` stay, and those made after `checker` are
those made after `next`. -/
def resuming {origin checker next : Checker} (first : origin.Extends checker)
    (second : origin.Extends next) : Renaming where
  widths := Shift origin.nextWidth checker.nextWidth next.nextWidth
  vars := Shift origin.types.size checker.types.size next.types.size
  widths_unique := shift_unique first.nextWidth second.nextWidth
  vars_unique := shift_unique first.types.size second.types.size

/-- Nothing is renamed. -/
def refl : Renaming where
  widths := Eq
  vars := Eq
  widths_unique := biUnique_eq
  vars_unique := biUnique_eq

end Renaming

/-! ## Types that are their own renamed forms -/

/-- Names from before two runs have parted are not renamed. -/
theorem Static.Expr.Below.renamed_resuming {stem : String} {origin checker next : Checker}
    {first : origin.Extends checker} {second : origin.Extends next} {expr : Static.Expr}
    (below : expr.Below stem origin.nextWidth) :
    (Renaming.resuming first second).Conditions stem expr expr := by
  apply Static.Expr.renamed_self
  intro name mentioned
  by_cases generated : ∃ index : Nat, name = stem ++ index.repr
  · obtain ⟨index, rfl⟩ := generated
    exact .inl ⟨index, index, .inl ⟨below index mentioned, rfl⟩, rfl, rfl⟩
  · exact .inr ⟨rfl, not_exists.mp generated⟩

/-- A closed signature mirrors itself if all names in it stay. -/
theorem Signature.mirrors_self {mirror : Mirror} {store : TypeStore} {signature : Signature}
    (closed : signature.Closed)
    (statics : ∀ static ∈ signature.statics, mirror.Conditions static static)
    (params : ∀ param ∈ signature.params, mirror.names param param) :
    signature.Mirrors mirror store signature := by
  have types : ∀ ty ∈ signature.inputs ++ signature.outputs, mirror.TysOver store ty ty := by
    intro ty member
    have noVars := closed ty member
    apply Mirror.TysOver.of_closed _ noVars
    apply Ty.like_self
    · intro width inside
      exact statics width (List.mem_append_left _ (Ty.mem_widthsAll.mpr ⟨ty, member, inside⟩))
    · rw [noVars]
      intro id inside
      cases inside
  obtain ⟨inInputs, inOutputs⟩ := List.forall_mem_append.mp types
  exact
    { like :=
        { inputs := List.forall₂_same.mpr inInputs
          outputs := List.forall₂_same.mpr inOutputs
          params := rfl
          constraints := List.forall₂_same.mpr fun condition inside =>
            statics condition (List.mem_append_right _ inside) }
      fixed := params }

/-- Signatures that were known before stay as they are. -/
theorem Signature.Below.mirrors_self {stem : String} {mirror : Mirror} {store : TypeStore}
    {origin checker next : Checker} {first : origin.Extends checker} {second : origin.Extends next}
    {signature : Signature} (below : signature.Below stem origin.nextWidth)
    (closed : signature.Closed)
    (named : mirror.names = (Renaming.resuming first second).Names stem) :
    signature.Mirrors mirror store signature := by
  apply Signature.mirrors_self closed
  · intro static inside
    rw [Mirror.Conditions, named]
    exact (below.statics static inside).renamed_resuming
  · intro param inside
    rw [named]
    refine .inr ⟨rfl, ?_⟩
    rintro index rfl
    exact below.params index inside

namespace Typed

variable {tys : Ty → Ty → Prop}

private theorem Expr.like_self {expr : Typed.Expr} (each : ∀ ty ∈ expr.tys, tys ty ty) :
    expr.Like tys expr := by
  induction expr using Expr.inductionOnArgs with
  | const span ty value => exact .const (each ty List.mem_cons_self)
  | wire span ty name => exact .wire (each ty List.mem_cons_self)
  | apply span ty operator args ih =>
      obtain ⟨types, inArgs⟩ := List.forall_mem_cons.mp each
      apply Expr.Like.apply types
      apply List.forall₂_same.mpr
      intro arg inside
      exact ih arg inside fun other found => inArgs other (mem_tysAll.mpr ⟨arg, inside, found⟩)
  | call span ty node statics args ih =>
      obtain ⟨types, inArgs⟩ := List.forall_mem_cons.mp each
      apply Expr.Like.call types
      apply List.forall₂_same.mpr
      intro arg inside
      exact ih arg inside fun other found => inArgs other (mem_tysAll.mpr ⟨arg, inside, found⟩)

private theorem Block.like_self {block : Typed.Block} (each : ∀ ty ∈ block.tys, tys ty ty) :
    block.Like tys block := by
  induction block with
  | system span wires equations =>
      obtain ⟨inWires, inEquations⟩ := List.forall_mem_append.mp each
      apply Block.Like.system
      · apply List.forall₂_same.mpr
        intro wire inside
        exact ⟨rfl, inWires wire.ty (List.mem_map.mpr ⟨wire, inside, rfl⟩)⟩
      · apply List.forall₂_same.mpr
        intro equation inside
        refine ⟨rfl, rfl, Expr.like_self fun ty found => ?_⟩
        exact inEquations ty (List.mem_flatMap.mpr ⟨equation, inside, found⟩)
  | choice span condition onTrue onFalse ihTrue ihFalse =>
      obtain ⟨inTrue, inFalse⟩ := List.forall_mem_append.mp each
      exact .choice (ihTrue inTrue) (ihFalse inFalse)

/-- A typed node is like itself if its types and conditions are related to themselves. -/
theorem Node.like_self {conditions : Static.Expr → Static.Expr → Prop} {node : Typed.Node}
    (each : ∀ ty ∈ node.tys, tys ty ty)
    (residuals : ∀ condition ∈ node.signature.constraints, conditions condition condition) :
    node.Like tys conditions node := by
  obtain ⟨inPorts, inBody⟩ := List.forall_mem_append.mp each
  obtain ⟨inWires, inSignature⟩ := List.forall_mem_append.mp inPorts
  rw [List.map_append] at inWires
  obtain ⟨inInputs, inOutputs⟩ := List.forall_mem_append.mp inWires
  obtain ⟨inSignatureInputs, inSignatureOutputs⟩ := List.forall_mem_append.mp inSignature
  have wires : ∀ {wires : List Wire}, (∀ ty ∈ wires.map (·.ty), tys ty ty) →
      List.Forall₂ (Wire.Like tys) wires wires := by
    intro wires eachWire
    apply List.forall₂_same.mpr
    intro wire inside
    exact ⟨rfl, eachWire wire.ty (List.mem_map.mpr ⟨wire, inside, rfl⟩)⟩
  exact
    { span := rfl
      id := rfl
      params := rfl
      inputs := wires inInputs
      outputs := wires inOutputs
      body := Block.like_self inBody
      signature :=
        { inputs := List.forall₂_same.mpr inSignatureInputs
          outputs := List.forall₂_same.mpr inSignatureOutputs
          params := rfl
          constraints := List.forall₂_same.mpr residuals } }

/-! ## Types on one side -/

private theorem Expr.Like.exists_of_mem {expr : Typed.Expr} {ty : Ty} :
    ∀ {other : Typed.Expr}, expr.Like tys other → ty ∈ expr.tys → ∃ partner, tys ty partner := by
  induction expr using Expr.inductionOnArgs with
  | const span found value =>
      intro other like inside
      obtain rfl := List.mem_singleton.mp inside
      exact ⟨_, like.ty_like⟩
  | wire span found name =>
      intro other like inside
      obtain rfl := List.mem_singleton.mp inside
      exact ⟨_, like.ty_like⟩
  | apply span found operator args ih =>
      intro other like inside
      cases like with
      | apply types each =>
          rcases List.mem_cons.mp inside with rfl | inArgs
          · exact ⟨_, types⟩
          · obtain ⟨arg, member, inArg⟩ := mem_tysAll.mp inArgs
            obtain ⟨_, argLike⟩ := forall₂_exists_right each member
            exact ih arg member argLike inArg
  | call span found node statics args ih =>
      intro other like inside
      cases like with
      | call types each =>
          rcases List.mem_cons.mp inside with rfl | inArgs
          · exact ⟨_, types⟩
          · obtain ⟨arg, member, inArg⟩ := mem_tysAll.mp inArgs
            obtain ⟨_, argLike⟩ := forall₂_exists_right each member
            exact ih arg member argLike inArg

/-- Every type in a typed body has a partner in a body like it. -/
theorem Block.Like.exists_of_mem {block other : Typed.Block} {ty : Ty} (like : block.Like tys other)
    (inside : ty ∈ block.tys) : ∃ partner, tys ty partner := by
  induction like with
  | system wiresLike equationsLike =>
      rcases List.mem_append.mp inside with inWires | inEquations
      · obtain ⟨wire, member, rfl⟩ := List.mem_map.mp inWires
        obtain ⟨_, wireLike⟩ := forall₂_exists_right wiresLike member
        exact ⟨_, wireLike.ty⟩
      · obtain ⟨equation, member, inValue⟩ := List.mem_flatMap.mp inEquations
        obtain ⟨_, equationLike⟩ := forall₂_exists_right equationsLike member
        exact equationLike.value.exists_of_mem inValue
  | choice _ _ ihTrue ihFalse =>
      rcases List.mem_append.mp inside with inTrue | inFalse
      · exact ihTrue inTrue
      · exact ihFalse inFalse

private theorem Node.Like.exists_of_mem {conditions : Static.Expr → Static.Expr → Prop}
    {node other : Typed.Node} {ty : Ty} (like : node.Like tys conditions other)
    (inside : ty ∈ node.tys) : ∃ partner, tys ty partner := by
  rcases List.mem_append.mp inside with inPorts | inBody
  · rcases List.mem_append.mp inPorts with inWires | inSignature
    · obtain ⟨wire, member, rfl⟩ := List.mem_map.mp inWires
      obtain ⟨_, wireLike⟩ := forall₂_exists_right (List.rel_append like.inputs like.outputs) member
      exact ⟨_, wireLike.ty⟩
    · exact forall₂_exists_right (List.rel_append like.signature.inputs like.signature.outputs)
        inSignature
  · exact like.body.exists_of_mem inBody

end Typed

/-! ## Sessions in which all nodes were accepted -/

/-- What is true between the checks of accepted nodes: the state mirrors itself, and known signatures
mention only numbers below the counter. -/
structure Checker.Regular (stem : String) (checker : Checker) : Prop where
  ready : checker.Ready
  numbers : checker.Numbers stem
  mirrors : checker.Mirrors Mirror.same checker

/-- The typed node mentions only widths and variables that the session has made. -/
structure Typed.Node.Settled (stem : String) (checker : Checker) (typed : Typed.Node) : Prop where
  below : Node.TypedBelow stem checker.nextWidth typed
  owned : ∀ ty ∈ typed.tys, ty.Over checker.types

variable {stem : String} {checker next middle : Checker} {node : Node} {typed : Typed.Node}

private theorem Typed.Node.Settled.later (settled : typed.Settled stem checker)
    (grown : checker.Extends next) : typed.Settled stem next where
  below :=
    { types := fun ty member width inside =>
        (settled.below.types ty member width inside).mono grown.nextWidth
      conditions := fun condition inside =>
        (settled.below.conditions condition inside).mono grown.nextWidth }
  owned := fun ty member => grown.types.owned (settled.owned ty member)

private theorem Circuit.Node.Phases.precedes (phases : node.Phases checker typed next) :
    checker.types.Precedes next.types :=
  phases.introduced.precedes.trans
    (phases.grows.types.trans phases.concluded.types.precedes)

/-- What an accepted node leaves behind. -/
structure Checker.Continues (stem : String) (checker : Checker) (typed : Typed.Node)
    (next : Checker) : Prop where
  regular : next.Regular stem
  grown : checker.Extends next
  settled : typed.Settled stem next

/-- An accepted node leaves a regular state, which continues the one before. -/
theorem Checker.Regular.check (regular : checker.Regular stem) (spares : node.Spares stem)
    (accepted : node.check checker = .ok typed next) : checker.Continues stem typed next := by
  have inStep := Node.checkDefinition_mirrored Mirror.pairing_solves (Mirror.same_readsNode node)
    regular.mirrors
  rw [Node.checkDefinition_of_check accepted] at inStep
  obtain ⟨phases⟩ := node.exists_phases regular.ready accepted
  have below := phases.below regular.ready regular.numbers spares
  have ready := ((node.check_ends regular.ready).returned accepted).ready
  cases inStep with
  | returned related =>
      obtain ⟨mirrors, _, like⟩ := related
      have owned : ∀ ty ∈ typed.tys, ty.Over next.types := by
        intro ty inside
        obtain ⟨_, types⟩ := like.exists_of_mem inside
        exact types.owned
      exact ⟨⟨ready, below.numbers, mirrors⟩, ⟨below.nextWidth, phases.precedes⟩,
        ⟨below.typed, owned⟩⟩

/-- The state at the start is regular. -/
theorem Checker.start_regular (settings : CheckSettings) :
    (Checker.start settings).Regular settings.widthStem where
  ready := start_ready settings
  numbers := start_numbers settings
  mirrors := Mirror.start_same settings.widthStem settings.keepTrivial settings.keepTrivial

/-- Accepted nodes leave a regular state, in which their typed forms are settled. -/
theorem Checker.Regular.checkNodes (nodes : List Node) :
    ∀ {checker : Checker} {typeds : List Typed.Node}, checker.Regular stem →
      (∀ node ∈ nodes, node.Spares stem) → Circuit.checkNodes nodes checker = .ok typeds next →
      next.Regular stem ∧ checker.Extends next ∧ ∀ typed ∈ typeds, typed.Settled stem next := by
  induction nodes with
  | nil =>
      intro checker typeds regular _ accepted
      cases accepted
      exact ⟨regular, .refl _, by simp⟩
  | cons node nodes ih =>
      intro checker typeds regular spares accepted
      obtain ⟨spared, restSpared⟩ := List.forall_mem_cons.mp spares
      rw [Circuit.checkNodes, List.mapM_cons] at accepted
      obtain ⟨typed, middle, headRun, accepted⟩ := exists_of_bind_ok accepted
      obtain ⟨others, last, tailRun, accepted⟩ := exists_of_bind_ok accepted
      cases accepted
      have continues := regular.check spared headRun
      obtain ⟨lastRegular, grown, settled⟩ := ih continues.regular restSpared tailRun
      exact ⟨lastRegular, continues.grown.trans grown,
        List.forall_mem_cons.mpr ⟨continues.settled.later grown, settled⟩⟩

end CircuitWidths
