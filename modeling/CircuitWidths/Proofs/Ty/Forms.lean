import CircuitWidths.Proofs.Ty.Principal

/-!
# The form of widths in a type store

The steps of a type store make no widths of their own.  If all widths that the variables made since
an earlier store are linked to have a certain form, then so have all widths that a step on types of
this form finds or links, and the older variables are left alone.  Unification adds equations
between such widths only.  This is so whatever the outcome of a step is, and does not depend on how
links are arranged.
-/

namespace CircuitWidths

variable {origin : TypeStore} {form condition : Static.Expr → Prop} {ty : Ty} {id : TyVar} {α : Type}

/-- The variables of the type were made since `origin`, and its widths have the form. -/
structure Ty.Conforms (origin : TypeStore) (form : Static.Expr → Prop) (ty : Ty) : Prop where
  vars : ∀ id ∈ ty.vars, origin.size ≤ id.index
  widths : ∀ width ∈ ty.widths, form width

namespace Ty.Conforms

theorem bit : Ty.bit.Conforms origin form := ⟨by simp [Ty.vars], by simp [Ty.widths]⟩

theorem bits {width : Static.Expr} (formed : form width) : (Ty.bits width).Conforms origin form :=
  ⟨by simp [Ty.vars], by simpa [Ty.widths] using formed⟩

private theorem var (made : origin.size ≤ id.index) : (Ty.var id).Conforms origin form :=
  ⟨by simpa [Ty.vars] using made, by simp [Ty.widths]⟩

private theorem width_form {width : Static.Expr} (conforms : (Ty.bits width).Conforms origin form) :
    form width :=
  conforms.widths width (by simp [Ty.widths])

/-- A variable that conforms was made since the origin. -/
theorem var_made (conforms : (Ty.var id).Conforms origin form) : origin.size ≤ id.index :=
  conforms.vars id (by simp [Ty.vars])

/-- A product conforms if all of its members do. -/
theorem product_iff {members : List Ty} : (Ty.product members).Conforms origin form ↔
    ∀ member ∈ members, member.Conforms origin form := by
  constructor
  · intro conforms member inside
    refine ⟨fun id mentioned => conforms.vars id ?_, fun width written => conforms.widths width ?_⟩
    · exact Ty.mem_vars_product.mpr ⟨member, inside, mentioned⟩
    · exact Ty.mem_widthsAll.mpr ⟨member, inside, written⟩
  · intro each
    refine ⟨fun id mentioned => ?_, fun width written => ?_⟩
    · obtain ⟨member, inside, mentioned⟩ := Ty.mem_vars_product.mp mentioned
      exact (each member inside).vars id mentioned
    · obtain ⟨member, inside, written⟩ := Ty.mem_widthsAll.mp written
      exact (each member inside).widths width written

/-- The form that is asked of widths may be weakened. -/
theorem imp {other : Static.Expr → Prop} (weaken : ∀ width, form width → other width)
    (conforms : ty.Conforms origin form) : ty.Conforms origin other :=
  ⟨conforms.vars, fun width written => weaken width (conforms.widths width written)⟩

end Ty.Conforms

namespace TypeStore

/-- What the variables made since `origin` are linked to has widths of the form, and those made
before are as they were. -/
structure Conforms (origin : TypeStore) (form : Static.Expr → Prop) (store : TypeStore) : Prop where
  begun : origin.size ≤ store.size
  links : ∀ id ty, store.Linked id ty → origin.size ≤ id.index → ty.Conforms origin form
  kept : ∀ id : TyVar, id.index < origin.size → store.links.get? id = origin.links.get? id

/-- The form that is asked of the widths in links may be weakened. -/
theorem Conforms.imp {store : TypeStore} {other : Static.Expr → Prop}
    (weaken : ∀ width, form width → other width) (conforms : Conforms origin form store) :
    Conforms origin other store :=
  ⟨conforms.begun, fun id ty linked made => (conforms.links id ty linked made).imp weaken,
    conforms.kept⟩

/-- Where nothing was made since the beginning, nothing has to have the form. -/
theorem Conforms.refl (store : TypeStore) : Conforms store form store := by
  refine ⟨le_rfl, fun id ty linked made => ?_, fun _ _ => rfl⟩
  have old := (owns_iff.mp linked.owns).2
  omega

/-- From the beginning on all links count. -/
theorem Conforms.of_empty {store : TypeStore} {owner : Nat}
    (links : ∀ id ty, store.Linked id ty → ty.Conforms (.empty owner) form) :
    Conforms (.empty owner) form store :=
  ⟨Nat.zero_le _, fun id ty linked _ => links id ty linked,
    fun _ old => (Nat.not_lt_zero _ old).elim⟩

/-- A new variable conforms, and so does the store with it. -/
theorem Conforms.fresh {store : TypeStore} (conforms : Conforms origin form store) :
    Conforms origin form store.fresh.2 ∧ store.fresh.1.Conforms origin form := by
  obtain ⟨made, _, size, links⟩ := store.fresh_spec
  refine ⟨⟨?_, fun id ty linked => conforms.links id ty (linked_fresh linked), ?_⟩, ?_⟩
  · rw [size]
    exact conforms.begun.trans (Nat.le_succ _)
  · intro id old
    rw [links, if_neg]
    · exact conforms.kept id old
    · rintro rfl
      exact Nat.not_lt.mpr conforms.begun old
  · rw [made]
    exact .var conforms.begun

/-- What is true of each link that is found. -/
theorem link_preserves (made : origin.size ≤ id.index) :
    Preserves (Conforms origin form) (link id)
      (fun link => ∀ ty, link = some ty → ty.Conforms origin form) := by
  intro store conforms
  cases found : store.links.get? id with
  | none => exact .of_error (by rw [link, found]) conforms
  | some link =>
      refine .of_ok (by rw [TypeStore.link, found]) ⟨conforms, ?_⟩
      rintro ty rfl
      exact conforms.links id ty found made

private theorem relink_preserves (made : origin.size ≤ id.index)
    (conforms : ty.Conforms origin form) :
    Preserves (Conforms origin form) (relink id ty) fun _ => True := by
  intro store storeConforms
  cases replaced : store.links.set? id (some ty) with
  | none => exact .of_error (by rw [relink, replaced]) storeConforms
  | some links =>
      have found := Slots.get?_of_set? replaced
      refine .of_ok (by rw [relink, replaced])
        ⟨⟨?_, fun other target linked made => ?_, fun other old => ?_⟩, trivial⟩
      · exact storeConforms.begun.trans (Slots.size_of_set? replaced).2.ge
      · have linked : links.get? other = some (some target) := linked
        rw [found] at linked
        by_cases same : other = id
        · rw [if_pos same] at linked
          cases linked
          exact conforms
        · rw [if_neg same] at linked
          exact storeConforms.links other target linked made
      · show links.get? other = _
        rw [found, if_neg]
        · exact storeConforms.kept other old
        · rintro rfl
          exact Nat.not_lt.mpr made old

private theorem assign_preserves (made : origin.size ≤ id.index)
    (conforms : ty.Conforms origin form) :
    Preserves (Conforms origin form) (assign id ty) fun _ => True := by
  refine .bind (link_preserves made) fun link _ => ?_
  cases link with
  | none => exact relink_preserves made conforms
  | some _ => exact .throw

/-- Links from a type that conforms lead to a type that conforms. -/
theorem representativeWithin_preserves (limit : Nat) : ∀ {ty : Ty}, ty.Conforms origin form →
    Preserves (Conforms origin form) (representativeWithin limit ty)
      (fun head => head.Conforms origin form) := by
  induction limit with
  | zero =>
      intro ty conforms
      cases ty with
      | var id => exact .throw
      | unit | bit | bits _ | product _ => exact .pure conforms
  | succ limit ih =>
      intro ty conforms
      cases ty with
      | unit | bit | bits _ | product _ => exact .pure conforms
      | var id =>
          rw [representativeWithin]
          refine .bind (link_preserves conforms.var_made) fun link allowed => ?_
          cases link with
          | none => exact .pure conforms
          | some next =>
              refine .bind (ih (allowed next rfl)) fun head headConforms => ?_
              exact .bind (relink_preserves conforms.var_made headConforms)
                fun _ _ => .pure headConforms

/-- The representative of a type that conforms does so, and paths are shortened among such types. -/
theorem representative_preserves (conforms : ty.Conforms origin form) :
    Preserves (Conforms origin form) (representative ty) (fun head => head.Conforms origin form) :=
  .get_bind fun _ => representativeWithin_preserves _ conforms

/-- Following links, however deep, stays among types that conform. -/
theorem resolveWithin_preserves (limit : Nat) : ∀ {ty : Ty}, ty.Conforms origin form →
    Preserves (Conforms origin form) (resolveWithin limit ty)
      (fun resolved => resolved.Conforms origin form) := by
  induction limit with
  | zero => exact fun _ => .throw
  | succ limit ih =>
      intro ty conforms
      rw [resolveWithin]
      refine .bind (representative_preserves conforms) fun head headConforms => ?_
      cases head with
      | unit | bit | bits _ | var _ => exact .pure headConforms
      | product members =>
          refine .bind (.mapM fun member inside => ih (Ty.Conforms.product_iff.mp headConforms
            member inside)) fun resolved each => ?_
          exact .pure (Ty.Conforms.product_iff.mpr each)

/-- A type that conforms does so when its links have been followed. -/
theorem resolve_preserves (conforms : ty.Conforms origin form) :
    Preserves (Conforms origin form) (resolve ty) (fun resolved => resolved.Conforms origin form) :=
  .get_bind fun _ => resolveWithin_preserves _ conforms

/-- The search for a variable stays among types that conform. -/
theorem occursWithin_preserves (limit : Nat) : ∀ {ty : Ty}, ty.Conforms origin form →
    Preserves (Conforms origin form) (occursWithin id limit ty) fun _ => True := by
  induction limit with
  | zero => exact fun _ => .throw
  | succ limit ih =>
      intro ty conforms
      rw [occursWithin]
      refine .bind (representative_preserves conforms) fun head headConforms => ?_
      cases head with
      | unit | bit | bits _ | var _ => exact .pure trivial
      | product members =>
          exact .anyM fun member inside =>
            ih (Ty.Conforms.product_iff.mp headConforms member inside)

private theorem occurs_preserves (conforms : ty.Conforms origin form) :
    Preserves (Conforms origin form) (occurs id ty) fun _ => True :=
  .get_bind fun _ => occursWithin_preserves _ conforms

end TypeStore

namespace Unification

/-- Links have widths of the form, and pending conditions have theirs. -/
structure Conforms (origin : TypeStore) (form condition : Static.Expr → Prop) (state : Unification) :
    Prop where
  types : TypeStore.Conforms origin form state.types
  pending : ∀ expr ∈ state.constraints.pending, condition expr

/-- Equations between widths of the form are conditions. -/
def Equates (form condition : Static.Expr → Prop) : Prop :=
  ∀ left right, form left → form right → condition (.binary .eq left right)

private theorem onTypes_preserves {step : StoreM α} {returns : α → Prop}
    (preserves : Preserves (TypeStore.Conforms origin form) step returns) :
    Preserves (Conforms origin form condition) (onTypes step) returns := by
  intro state conforms
  have ends := preserves state.types conforms.types
  cases run : step state.types with
  | ok value types =>
      obtain ⟨typesConform, returned⟩ := ends.returned run
      have lifted : onTypes step state = .ok value { state with types := types } := by
        rw [onTypes, run]
      exact .of_ok lifted ⟨⟨typesConform, conforms.pending⟩, returned⟩
  | error fault types =>
      have lifted : onTypes step state =
          .error (.fault (.misuse fault)) { state with types := types } := by
        rw [onTypes, run]
      exact .of_error lifted ⟨ends.failed run, conforms.pending⟩

private theorem equate_preserves (equates : Equates form condition) {left right : Static.Expr}
    (leftForm : form left) (rightForm : form right) :
    Preserves (Conforms origin form condition) (equate left right) fun _ => True := by
  intro state conforms
  refine .modify ⟨⟨conforms.types, ?_⟩, trivial⟩
  simp only [Constraints.emitEqual]
  split
  · exact conforms.pending
  · intro expr inside
    rcases List.mem_append.mp inside with before | added
    · exact conforms.pending expr before
    · obtain rfl := List.mem_singleton.mp added
      exact equates left right leftForm rightForm

/-- Linking a new variable to a type that conforms leaves all links so. -/
theorem bindVar_preserves (made : origin.size ≤ id.index) (conforms : ty.Conforms origin form) :
    Preserves (Conforms origin form condition) (bindVar id ty) fun _ => True := by
  refine .bind (onTypes_preserves (TypeStore.occurs_preserves conforms)) fun found _ => ?_
  cases found with
  | true => exact .throw
  | false => exact onTypes_preserves (TypeStore.assign_preserves made conforms)

/-- Unification of types that conform takes only steps that keep links and pending conditions so. -/
theorem keeps_conforming (equates : Equates form condition) (one : form (.int 1)) :
    Keeps (.keeping (Conforms origin form condition)) (Ty.Conforms origin form) where
  members := fun conforms => Ty.Conforms.product_iff.mp conforms
  refuses := fun conforms _ => conforms
  representative := fun conforms tyConforms =>
    (onTypes_preserves (TypeStore.representative_preserves tyConforms)).stays conforms
  bindVar := fun conforms varConforms tyConforms =>
    (bindVar_preserves varConforms.var_made tyConforms).stays conforms
  equate := fun conforms left right =>
    (equate_preserves equates left.width_form right.width_form).stays conforms
  equateOne := fun conforms width => (equate_preserves equates width.width_form one).stays conforms

/-- Unification of types that conform, however deep, leaves all links and pending conditions so. -/
theorem unifyWithin_preserves (equates : Equates form condition) (one : form (.int 1))
    (limit : Nat) {found expected : Ty} (foundConforms : found.Conforms origin form)
    (expectedConforms : expected.Conforms origin form) :
    Preserves (Conforms origin form condition) (unifyWithin limit found expected) fun _ => True :=
  Stays.preserves fun _ conforms =>
    (keeps_conforming equates one).unifyWithin_stays limit conforms foundConforms expectedConforms

/-- Unification of types that conform leaves all links and pending conditions so. -/
theorem unify_preserves (equates : Equates form condition) (one : form (.int 1))
    {found expected : Ty} (foundConforms : found.Conforms origin form)
    (expectedConforms : expected.Conforms origin form) :
    Preserves (Conforms origin form condition) (unify found expected) fun _ => True :=
  .get_bind fun _ => unifyWithin_preserves equates one _ foundConforms expectedConforms

end Unification

end CircuitWidths
