import CircuitWidths.Proofs.Static.Meaning
import CircuitWidths.Ty.Basic

/-!
# Ground types

A ground type has widths that are integers and no variables.  A model says what static variables
and type variables stand for, and under a model every type denotes a ground type.  A single bit
denotes a bus of width one, so that the two ways to write it are the same ground type.
-/

namespace CircuitWidths

/-- A type without variables, whose widths are integers. -/
inductive GroundTy
  | unit
  | bits (width : Int)
  | product (members : List GroundTy)
  deriving Repr

/-- What open operations, static variables and type variables stand for. -/
structure Model where
  reading : Static.Reading
  values : Static.Valuation
  grounds : TyVar → GroundTy

/-- The model meets all conditions. -/
def Model.Meets (model : Model) (conditions : List Static.Expr) : Prop :=
  Static.AllHold model.reading model.values conditions

namespace Ty

/-- Induction over types in which a product may use what holds of its members. -/
@[elab_as_elim, induction_eliminator]
theorem inductionOnMembers {motive : Ty → Prop} (unit : motive .unit) (bit : motive .bit)
    (bits : ∀ width, motive (.bits width))
    (product : ∀ members, (∀ ty ∈ members, motive ty) → motive (.product members))
    (var : ∀ id, motive (.var id)) (ty : Ty) : motive ty := by
  have none : ∀ ty ∈ ([] : List Ty), motive ty := by
    intro ty member
    cases member
  have more : ∀ head tail, motive head → (∀ ty ∈ tail, motive ty) →
      ∀ ty ∈ head :: tail, motive ty :=
    fun _ _ headHolds tailHolds => List.forall_mem_cons.mpr ⟨headHolds, tailHolds⟩
  exact @Ty.rec motive (fun tys => ∀ ty ∈ tys, motive ty) unit bit bits product var none more ty

mutual

/-- The ground type that a type denotes. -/
def denote (model : Model) : Ty → GroundTy
  | .unit => .unit
  | .bit => .bits 1
  | .bits width => .bits (width.value model.reading model.values)
  | .product members => .product (denoteAll model members)
  | .var id => model.grounds id

/-- The ground types that the types denote. -/
def denoteAll (model : Model) : List Ty → List GroundTy
  | [] => []
  | ty :: rest => ty.denote model :: denoteAll model rest

end

mutual

/-- The type variables of a type as it is written. -/
def vars : Ty → List TyVar
  | .product members => varsAll members
  | .var id => [id]
  | .unit | .bit | .bits _ => []

/-- The type variables of all types. -/
def varsAll : List Ty → List TyVar
  | [] => []
  | ty :: rest => ty.vars ++ varsAll rest

end

mutual

/-- The widths that are written in a type. -/
def widths : Ty → List Static.Expr
  | .bits width => [width]
  | .product members => widthsAll members
  | .unit | .bit | .var _ => []

/-- The widths that are written in the types. -/
def widthsAll : List Ty → List Static.Expr
  | [] => []
  | ty :: rest => ty.widths ++ widthsAll rest

end

/-- The ground type of a type without variables. -/
def ground (reading : Static.Reading) (values : Static.Valuation) (ty : Ty) : GroundTy :=
  ty.denote ⟨reading, values, fun _ => .unit⟩

section Lists

variable {model : Model}

private theorem denoteAll_eq_map (tys : List Ty) : denoteAll model tys = tys.map
    (denote model) := by
  induction tys with
  | nil => rfl
  | cons ty rest ih => rw [denoteAll, ih, List.map_cons]

/-- Substitution in a list of types goes through its members. -/
theorem substituteAll_eq_map (bindings : Bindings Static.Expr) (tys : List Ty) :
    substituteAll bindings tys = tys.map (substitute bindings) := by
  induction tys with
  | nil => rfl
  | cons ty rest ih => rw [substituteAll, ih, List.map_cons]

@[simp] theorem denote_product (members : List Ty) :
    (Ty.product members).denote model = .product (members.map (denote model)) := by
  rw [denote, denoteAll_eq_map]

@[simp] theorem denote_unit : Ty.unit.denote model = .unit := rfl

@[simp] theorem denote_bit : Ty.bit.denote model = .bits 1 := rfl

@[simp] theorem denote_bits (width : Static.Expr) :
    (Ty.bits width).denote model = .bits (width.value model.reading model.values) := rfl

@[simp] theorem denote_var (id : TyVar) : (Ty.var id).denote model = model.grounds id := rfl

private theorem mem_varsAll {id : TyVar} {tys : List Ty} :
    id ∈ varsAll tys ↔ ∃ ty ∈ tys, id ∈ ty.vars := by
  induction tys with
  | nil => simp [varsAll]
  | cons ty rest ih => simp [varsAll, ih]

@[simp] theorem mem_vars_product {id : TyVar} {members : List Ty} :
    id ∈ (Ty.product members).vars ↔ ∃ ty ∈ members, id ∈ ty.vars := by
  rw [vars, mem_varsAll]

@[simp] theorem mem_vars_var {id other : TyVar} : id ∈ (Ty.var other).vars ↔ id = other := by
  simp [vars]

/-- The widths in a list of types are those in its members. -/
theorem mem_widthsAll {width : Static.Expr} {tys : List Ty} :
    width ∈ widthsAll tys ↔ ∃ ty ∈ tys, width ∈ ty.widths := by
  induction tys with
  | nil => simp [widthsAll]
  | cons ty rest ih => simp [widthsAll, ih]

end Lists

/-- What a type denotes depends on the ground types of its variables and the values of its widths
only. -/
theorem denote_congr {model other : Model} {ty : Ty}
    (grounds : ∀ id ∈ ty.vars, model.grounds id = other.grounds id)
    (widths : ∀ width ∈ ty.widths, width.value model.reading model.values =
      width.value other.reading other.values) : ty.denote model = ty.denote other := by
  induction ty with
  | unit => rfl
  | bit => rfl
  | bits width => simp [widths width (by simp [Ty.widths])]
  | var id => exact grounds id (by simp)
  | product members ih =>
      simp only [denote_product, GroundTy.product.injEq]
      apply List.map_congr_left
      intro ty member
      apply ih ty member
      · exact fun id inside => grounds id (mem_vars_product.mpr ⟨ty, member, inside⟩)
      · exact fun width inside => widths width (mem_widthsAll.mpr ⟨ty, member, inside⟩)

/-- A type without variables denotes the same ground type whatever variables stand for. -/
theorem denote_eq_ground {model : Model} {ty : Ty} (closed : ty.vars = []) :
    ty.denote model = ty.ground model.reading model.values := by
  apply denote_congr
  · rw [closed]
    intro id member
    cases member
  · exact fun _ _ => rfl

/-- Replacing parameters in a type is the same as changing the valuation. -/
theorem denote_substitute (bindings : Bindings Static.Expr) (model : Model) (ty : Ty) :
    (ty.substitute bindings).denote model =
      ty.denote { model with values := model.values.under model.reading bindings } := by
  induction ty with
  | unit => rfl
  | bit => rfl
  | bits width => simp [substitute]
  | var id => rfl
  | product members ih =>
      rw [substitute, substituteAll_eq_map, denote_product, denote_product, List.map_map]
      congr 1
      exact List.map_congr_left ih

/-- Replacing parameters leaves type variables alone. -/
@[simp] theorem vars_substitute (bindings : Bindings Static.Expr) (ty : Ty) :
    (ty.substitute bindings).vars = ty.vars := by
  induction ty with
  | unit => rfl
  | bit => rfl
  | bits width => rfl
  | var id => rfl
  | product members ih =>
      rw [substitute, substituteAll_eq_map, vars, vars]
      induction members with
      | nil => rfl
      | cons ty rest ihRest =>
          rw [List.map_cons, varsAll, varsAll, ih ty List.mem_cons_self,
            ihRest fun other member => ih other (List.mem_cons_of_mem _ member)]

/-! ## Bits and buses -/

/-- A single bit or a bus. -/
inductive Flat : Ty → Prop
  | bit : Flat .bit
  | bits (width : Static.Expr) : Flat (.bits width)

namespace Flat

variable {ty : Ty}

/-- There are no variables in bits and buses. -/
theorem closed (flat : ty.Flat) : ty.vars = [] := by
  cases flat <;> rfl

theorem ne_var (flat : ty.Flat) (id : TyVar) : ty ≠ .var id := by
  cases flat <;> simp

theorem ne_product (flat : ty.Flat) (members : List Ty) : ty ≠ .product members := by
  cases flat <;> simp

/-- Bits and buses stay so under substitution. -/
theorem substitute (flat : ty.Flat) (bindings : Bindings Static.Expr) :
    (ty.substitute bindings).Flat := by
  cases flat with
  | bit => exact .bit
  | bits width => exact .bits _

end Flat

end Ty

end CircuitWidths
