import CircuitWidths.Proofs.Check.Soundness

/-!
# Static expressions that are written in a circuit

Generated widths have names that begin with a stem.  If the names that are still to be generated
are not used in the source, their values do not matter for what is written there, nor for what the
signatures of known nodes say at static arguments that are written there.
-/

namespace CircuitWidths

open Circuit
open Static (Reading Valuation AllHold)

/-- No variable that begins with the stem stands in the expression. -/
def Static.Expr.Avoids (stem : String) (expr : Static.Expr) : Prop :=
  ∀ rest, expr.mentions (stem ++ rest) = false

/-- None of the names that are set aside stands in the expression. -/
def Static.Expr.Omits (aside : String → Prop) (expr : Static.Expr) : Prop :=
  ∀ name, aside name → expr.mentions name = false

/-- The name begins with the stem. -/
def HasStem (stem name : String) : Prop := ∃ rest, name = stem ++ rest

/-- An expression that avoids a stem mentions no name with it. -/
theorem Static.Expr.Avoids.omits {stem : String} {expr : Static.Expr} (avoids : expr.Avoids stem) :
    expr.Omits (HasStem stem) := by
  rintro _ ⟨rest, rfl⟩
  exact avoids rest

namespace Circuit

namespace Expr

mutual

/-- The static expressions that are written in an expression. -/
def statics : Expr → List Static.Expr
  | .const _ _ | .wire _ _ => []
  | .apply _ operator args => operator.statics ++ staticsAll args
  | .call _ _ statics args => statics ++ staticsAll args

/-- The static expressions that are written in the expressions. -/
def staticsAll : List Expr → List Static.Expr
  | [] => []
  | expr :: rest => expr.statics ++ staticsAll rest

end

/-- The static expressions in a list of expressions are those in its members. -/
theorem mem_staticsAll {static : Static.Expr} {exprs : List Expr} :
    static ∈ staticsAll exprs ↔ ∃ expr ∈ exprs, static ∈ expr.statics := by
  induction exprs with
  | nil => simp [staticsAll]
  | cons expr rest ih => simp [staticsAll, ih]

end Expr

/-- The width of a declared type, if it has one. -/
def DeclaredTy.statics (declared : DeclaredTy) : List Static.Expr := declared.toTy.widths

/-- The width that is declared for a wire, if there is one. -/
def Local.statics (wire : Local) : List Static.Expr :=
  match wire.declared with
  | some declared => declared.statics
  | none => []

/-- The static expressions that are written in a body. -/
def Block.statics : Block → List Static.Expr
  | .system _ locals equations =>
    locals.flatMap (·.statics) ++ equations.flatMap (·.value.statics)
  | .choice _ condition onTrue onFalse => condition :: (onTrue.statics ++ onFalse.statics)

/-- The static expressions that are written in a node. -/
def Node.statics (node : Node) : List Static.Expr :=
  (node.inputs ++ node.outputs).flatMap (·.declared.statics) ++ node.body.statics

end Circuit

namespace Signature

/-- The widths and conditions of a signature. -/
def statics (signature : Signature) : List Static.Expr :=
  Ty.widthsAll (signature.inputs ++ signature.outputs) ++ signature.constraints

/-- The signature speaks about its own parameters only. -/
def SelfContained (signature : Signature) : Prop :=
  ∀ static ∈ signature.statics, ∀ name, static.mentions name = true → name ∈ signature.params

end Signature

/-- Names with the stem stand in a known signature as its parameters only. -/
def Catalog.Avoids (stem : String) (catalog : Catalog) : Prop :=
  ∀ name signature, catalog.get? name = some signature → ∀ static ∈ signature.statics,
    ∀ rest, static.mentions (stem ++ rest) = true → stem ++ rest ∈ signature.params

/-- Names that are set aside stand in a known signature as its parameters only. -/
def Catalog.Omits (aside : String → Prop) (catalog : Catalog) : Prop :=
  ∀ name signature, catalog.get? name = some signature → ∀ static ∈ signature.statics,
    ∀ other, aside other → static.mentions other = true → other ∈ signature.params

/-- Signatures that avoid a stem mention no name with it, apart from parameters. -/
theorem Catalog.Avoids.omits {stem : String} {catalog : Catalog} (avoids : catalog.Avoids stem) :
    catalog.Omits (HasStem stem) := by
  rintro name signature known static inside _ ⟨rest, rfl⟩
  exact avoids name signature known static inside rest

variable {aside : String → Prop}

/-- Conditions that can be solved for a name are equations with the name on the left. -/
theorem Static.Expr.equation?_eq_some {expr value : Static.Expr} {name : String}
    (found : expr.equation? = some (name, value)) : expr = .binary .eq (.var name) value := by
  unfold Static.Expr.equation? at found
  split at found
  · cases found
    rfl
  · cases found

/-! ## Substitution -/

/-- Simplification mentions no new names. -/
theorem Static.Expr.Omits.simplify {expr : Static.Expr} (omits : expr.Omits aside) :
    expr.simplify.Omits aside := by
  intro name isAside
  by_contra mentioned
  have before := mentions_of_mentions_simplify (Bool.eq_true_of_not_eq_false mentioned)
  rw [omits name isAside] at before
  cases before

/-- Substitution mentions only names that stay and names in replacements. -/
theorem Static.Expr.Omits.substitute {expr : Static.Expr} {bindings : Bindings Static.Expr}
    (own : ∀ name, aside name → expr.mentions name = true → (bindings.get? name).isSome)
    (bound : ∀ name replacement, bindings.get? name = some replacement →
      replacement.Omits aside) : (expr.substitute bindings).Omits aside := by
  intro name isAside
  by_contra mentioned
  rcases mentions_substitute (Bool.eq_true_of_not_eq_false mentioned) with
    ⟨inside, unbound⟩ | ⟨other, replacement, _, found, inside⟩
  · have := own name isAside inside
    rw [unbound] at this
    cases this
  · rw [bound other replacement found name isAside] at inside
    cases inside

/-- Replacing parameters by arguments leaves the other variables, and brings in those of the
arguments. -/
theorem Static.Expr.mentions_substitute_zip {expr : Static.Expr} {params : List String}
    {args : List Static.Expr} {name : String} (length : args.length = params.length)
    (mentioned : (expr.substitute (.ofList (params.zip args))).mentions name = true) :
    (expr.mentions name = true ∧ name ∉ params) ∨ ∃ arg ∈ args, arg.mentions name = true := by
  rcases mentions_substitute mentioned with ⟨before, unbound⟩ | ⟨param, arg, _, bound, inside⟩
  · refine .inl ⟨before, fun param => ?_⟩
    have bound := Bindings.get?_ofList_zip_isSome length param
    rw [unbound] at bound
    cases bound
  · exact .inr ⟨arg, (List.of_mem_zip (Bindings.mem_of_get?_ofList bound)).2, inside⟩

/-- A width after substitution comes from a width before. -/
theorem Ty.mem_widths_substitute {bindings : Bindings Static.Expr} {ty : Ty}
    {width : Static.Expr} (inside : width ∈ (ty.substitute bindings).widths) :
    ∃ original ∈ ty.widths, width = (original.substitute bindings).simplify := by
  induction ty with
  | unit => cases inside
  | bit => cases inside
  | bits original => exact ⟨original, by simp [widths], by simpa [substitute, widths] using inside⟩
  | var id => cases inside
  | product members ih =>
      rw [substitute, substituteAll_eq_map, widths, mem_widthsAll] at inside
      obtain ⟨_, member, found⟩ := inside
      obtain ⟨ty, inMembers, rfl⟩ := List.mem_map.mp member
      obtain ⟨original, inTy, same⟩ := ih ty inMembers found
      exact ⟨original, mem_widthsAll.mpr ⟨ty, inMembers, inTy⟩, same⟩

/-- The widths in the type of a call are those in the outputs. -/
theorem Ty.widths_ofOutputs {tys : List Ty} {width : Static.Expr}
    (inside : width ∈ (Ty.ofOutputs tys).widths) : width ∈ Ty.widthsAll tys := by
  unfold Ty.ofOutputs at inside
  split at inside
  · exact Ty.mem_widthsAll.mpr ⟨_, List.mem_cons_self, inside⟩
  · exact inside

/-- A width in the ports after substitution comes from a width before. -/
theorem Signature.mem_portWidths_substitute {bindings : Bindings Static.Expr}
    {signature : Signature} {width : Static.Expr}
    (inside : width ∈ Ty.widthsAll ((signature.substitute bindings).inputs ++
      (signature.substitute bindings).outputs)) :
    ∃ original ∈ Ty.widthsAll (signature.inputs ++ signature.outputs),
      width = (original.substitute bindings).simplify := by
  obtain ⟨_, member, found⟩ := Ty.mem_widthsAll.mp inside
  simp only [Signature.substitute, Ty.substituteAll_eq_map, ← List.map_append] at member
  obtain ⟨ty, inPorts, rfl⟩ := List.mem_map.mp member
  obtain ⟨original, inTy, same⟩ := Ty.mem_widths_substitute found
  exact ⟨original, Ty.mem_widthsAll.mpr ⟨ty, inPorts, inTy⟩, same⟩

private theorem Signature.mem_statics_substitute {bindings : Bindings Static.Expr}
    {signature : Signature} {static : Static.Expr}
    (inside : static ∈ (signature.substitute bindings).statics) :
    ∃ original ∈ signature.statics, static = (original.substitute bindings).simplify ∨
      static = original.substitute bindings := by
  rcases List.mem_append.mp inside with width | condition
  · obtain ⟨original, inPorts, same⟩ := Signature.mem_portWidths_substitute width
    exact ⟨original, List.mem_append_left _ inPorts, .inl same⟩
  · obtain ⟨original, member, rfl⟩ := List.mem_map.mp condition
    exact ⟨original, List.mem_append_right _ member, .inr rfl⟩

/-! ## Signatures at written arguments -/

/-- A call whose arguments mention no name set aside finds a signature that mentions none. -/
theorem Catalog.Omits.instantiate {catalog : Catalog} (omits : catalog.Omits aside)
    {name : String} {args : List Static.Expr} {signature : Signature}
    (argsOmit : ∀ arg ∈ args, arg.Omits aside)
    (instantiated : catalog.instantiate name args = .ok signature) :
    ∀ static ∈ signature.statics, static.Omits aside := by
  obtain ⟨registered, known, length, rfl⟩ := exists_of_instantiate instantiated
  intro static inside
  obtain ⟨original, member, same⟩ := Signature.mem_statics_substitute inside
  have replaced : (original.substitute (.ofList (registered.params.zip args))).Omits aside := by
    apply Static.Expr.Omits.substitute
    · intro other isAside mentioned
      exact Bindings.get?_ofList_zip_isSome length
        (omits name registered known original member other isAside mentioned)
    · intro other replacement bound
      exact argsOmit replacement (List.of_mem_zip (Bindings.mem_of_get?_ofList bound)).2
  rcases same with rfl | rfl
  · exact replaced.simplify
  · exact replaced

/-- A signature that mentions no name set aside may be made known. -/
theorem Catalog.Omits.register {catalog : Catalog} (omits : catalog.Omits aside)
    {name : String} {signature : Signature}
    (signatureOmits : ∀ static ∈ signature.statics, static.Omits aside) :
    (catalog.register name signature).Omits aside := by
  intro other found known static inside name isAside mentioned
  have known : (catalog.nodes.insert _ signature).get? other = some found := known
  rw [Bindings.get?_insert] at known
  split at known
  · cases known
    rw [signatureOmits static inside name isAside] at mentioned
    cases mentioned
  · exact omits other found known static inside name isAside mentioned

/-! ## Valuations that differ in generated widths -/

/-- The model differs from the valuation in names that are set aside only. -/
structure Model.Continues (model : Model) (reading : Reading) (values : Valuation)
    (aside : String → Prop) : Prop where
  reading : model.reading = reading
  values : ∀ name, ¬ aside name → model.values name = values name

namespace Model.Continues

variable {model : Model} {reading : Reading} {values : Valuation}

/-- An expression that mentions no name set aside has the value that it had. -/
theorem value_eq (continues : model.Continues reading values aside) {expr : Static.Expr}
    (omits : expr.Omits aside) :
    expr.value model.reading model.values = expr.value reading values := by
  rw [continues.reading]
  apply Static.Expr.value_congr
  intro name mentioned
  apply continues.values
  intro isAside
  rw [omits name isAside] at mentioned
  cases mentioned

/-- A type that mentions no name set aside stands for the ground type that it did. -/
theorem ground_eq (continues : model.Continues reading values aside) {ty : Ty}
    (omits : ∀ width ∈ ty.widths, width.Omits aside) :
    ty.ground model.reading model.values = ty.ground reading values :=
  Ty.denote_congr (fun _ _ => rfl) fun width inside => continues.value_eq (omits width inside)

/-- Conditions that mention no name set aside are met if they were. -/
theorem meets_iff (continues : model.Continues reading values aside)
    {conditions : List Static.Expr} (omits : ∀ condition ∈ conditions, condition.Omits aside) :
    model.Meets conditions ↔ AllHold reading values conditions := by
  refine forall₂_congr fun condition inside => ?_
  rw [Static.Expr.Holds, Static.Expr.Holds, continues.value_eq (omits condition inside)]

end Model.Continues

end CircuitWidths
