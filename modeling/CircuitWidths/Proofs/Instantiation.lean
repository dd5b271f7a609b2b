import CircuitWidths.Proofs.Check.Kinds
import CircuitWidths.Proofs.Check.TypedLikeness
import CircuitWidths.Proofs.Static.Folding

/-!
# Signatures at static arguments

A call puts its static arguments in place of the parameters of the called node, all at once.  The
arguments are written in the scope of the caller, where a name may happen to be one of the callee's
parameters too: it is not replaced again.  So what the instantiated signature says is what the stored
one says where the parameters have the values of the arguments
(`Catalog.instantiate_simultaneous`), and replacing names of the caller afterwards is the same as
replacing them in the arguments (`Catalog.instantiate_commutes`).
-/

namespace CircuitWidths

namespace Static

variable {reading : Reading} {values others : Valuation}

/-! ## Values of parameters -/

/-- The valuation with new values for names, one after another, so that of two values for the same
name the later one counts. -/
def Valuation.updateAll (values : Valuation) (updates : List (String × Int)) : Valuation :=
  updates.foldl (fun known update => Function.update known update.1 update.2) values

private theorem Valuation.under_empty : values.under reading .empty = values := rfl

private theorem Valuation.under_insert (bindings : Bindings Expr) (name : String)
    (replacement : Expr) : values.under reading (bindings.insert name replacement) =
      Function.update (values.under reading bindings) name (replacement.value reading values) := by
  funext other
  rw [under, Bindings.get?_insert]
  by_cases same : other = name
  · rw [if_pos same, same, Function.update_self]
  · rw [if_neg same, Function.update_of_ne same]
    rfl

/-- The replacements are evaluated where none of the names has its new value yet. -/
theorem Valuation.under_insertAll (pairs : List (String × Expr)) : ∀ bindings : Bindings Expr,
    values.under reading (bindings.insertAll pairs) =
      (values.under reading bindings).updateAll
        (pairs.map fun pair => (pair.1, pair.2.value reading values)) := by
  induction pairs with
  | nil => exact fun _ => rfl
  | cons pair pairs ih =>
      intro bindings
      have rest := ih (bindings.insert pair.1 pair.2)
      rw [under_insert] at rest
      exact rest

/-- To bind parameters to arguments is to give them the values of the arguments. -/
theorem Valuation.under_ofList_zip (params : List String) (args : List Expr) :
    values.under reading (.ofList (params.zip args)) =
      values.updateAll (params.zip (args.map fun arg => arg.value reading values)) := by
  rw [Bindings.ofList, under_insertAll, under_empty, List.zip_map_right]
  rfl

namespace Expr

/-- The expression is of the kind, and has under the first valuation the value that the other one
has under the second. -/
structure Reads (reading : Reading) (values others : Valuation) (kind : Kind) (expr other : Expr) :
    Prop where
  hasKind : expr.HasKind kind
  value : expr.value reading values = other.value reading others

private theorem reads_substitute {expr : Expr} {kind : Kind} {bindings : Bindings Expr}
    (hasKind : expr.HasKind kind)
    (bound : ∀ name value, bindings.get? name = some value → value.HasKind .int) :
    (expr.substitute bindings).Reads reading values (values.under reading bindings) kind expr :=
  ⟨hasKind.substitute bound, value_substitute bindings expr⟩

private theorem Reads.simplify {expr other : Expr} {kind : Kind}
    (reads : expr.Reads reading values others kind other) :
    expr.simplify.Reads reading values others kind other :=
  ⟨reads.hasKind.simplify, (value_simplify expr).trans reads.value⟩

/-! ## Replacing twice -/

/-- Where the first replacement leaves none of the variables, the second one is made inside the
replacements of the first. -/
theorem substitute_substitute {first second : Bindings Expr} {expr : Expr}
    (bound : ∀ name, expr.mentions name = true → (first.get? name).isSome) :
    (expr.substitute first).substitute second =
      expr.substitute (first.map fun replacement => replacement.substitute second) := by
  induction expr with
  | int value => rfl
  | bool value => rfl
  | var name =>
      obtain ⟨replacement, found⟩ := Option.isSome_iff_exists.mp (bound name (by simp [mentions]))
      simp only [substitute, Bindings.get?_map, found, Option.map_some, Option.getD_some]
  | binary op left right leftIh rightIh =>
      have lefts := leftIh fun name mentioned => bound name (by simp [mentions, mentioned])
      have rights := rightIh fun name mentioned => bound name (by simp [mentions, mentioned])
      simp only [substitute, lefts, rights]

end Expr

end Static

open Static (Reading Valuation)

variable {reading : Reading} {values : Valuation} {bindings first second : Bindings Static.Expr}

/-! ## Types -/

/-- Widths are integers with the value that their counterparts have under the other valuation, and
type variables stay. -/
def Likeness.reads (reading : Reading) (values others : Valuation) : Likeness where
  width := Static.Expr.Reads reading values others .int
  var := Eq
  unique := biUnique_eq

private theorem Ty.substitute_like {ty : Ty} (wellKinded : ty.WellKinded)
    (bound : ∀ name value, bindings.get? name = some value → value.HasKind .int) :
    (ty.substitute bindings).Like (.reads reading values (values.under reading bindings)) ty := by
  induction ty with
  | unit => exact .unit
  | bit => exact .bit
  | bits width =>
      have hasKind : width.HasKind .int := wellKinded width (by simp [widths])
      exact .bits (Static.Expr.reads_substitute hasKind bound).simplify
  | var id => exact .var rfl
  | product members ih =>
      rw [substitute, substituteAll_eq_map]
      apply Ty.Like.product
      rw [List.forall₂_map_left_iff, List.forall₂_same]
      intro member inside
      apply ih member inside
      exact fun width written => wellKinded width (mem_widthsAll.mpr ⟨member, inside, written⟩)

/-- Folding the widths between two replacements does not show. -/
theorem Ty.substitute_substitute {ty : Ty}
    (bound : ∀ width ∈ ty.widths, ∀ name, width.mentions name = true → (first.get? name).isSome) :
    (ty.substitute first).substitute second =
      ty.substitute (first.map fun replacement => replacement.substitute second) := by
  induction ty with
  | unit => rfl
  | bit => rfl
  | var id => rfl
  | bits width =>
      have replaced : (width.substitute first).substitute second = _ :=
        Static.Expr.substitute_substitute (bound width (by simp [widths]))
      rw [substitute, substitute, substitute, Static.Expr.simplify_substitute_simplify, replaced]
  | product members ih =>
      simp only [substitute, substituteAll_eq_map, List.map_map]
      congr 1
      apply List.map_congr_left
      intro member inside
      exact ih member inside fun width written =>
        bound width (mem_widthsAll.mpr ⟨member, inside, written⟩)

/-! ## Signatures -/

namespace Signature

variable {signature : Signature}

private theorem substitute_like (wellKinded : signature.WellKinded)
    (bound : ∀ name value, bindings.get? name = some value → value.HasKind .int) :
    (signature.substitute bindings).Like
      (Ty.Like (.reads reading values (values.under reading bindings)))
      (Static.Expr.Reads reading values (values.under reading bindings) .bool) signature := by
  have ports : ∀ tys : List Ty, (∀ ty ∈ tys, ty ∈ signature.inputs ++ signature.outputs) →
      List.Forall₂ (Ty.Like (.reads reading values (values.under reading bindings)))
        (Ty.substituteAll bindings tys) tys := by
    intro tys listed
    rw [Ty.substituteAll_eq_map, List.forall₂_map_left_iff, List.forall₂_same]
    exact fun ty inside => Ty.substitute_like (wellKinded.ports ty (listed ty inside)) bound
  refine ⟨ports _ fun ty => List.mem_append_left _, ports _ fun ty => List.mem_append_right _, rfl,
    ?_⟩
  rw [substitute, List.forall₂_map_left_iff, List.forall₂_same]
  exact fun condition inside =>
    Static.Expr.reads_substitute (wellKinded.conditions condition inside) bound

private theorem substitute_substitute
    (bound : ∀ static ∈ signature.statics, ∀ name, static.mentions name = true →
      (first.get? name).isSome) :
    (signature.substitute first).substitute second =
      signature.substitute (first.map fun replacement => replacement.substitute second) := by
  have ports : ∀ tys : List Ty, (∀ ty ∈ tys, ty ∈ signature.inputs ++ signature.outputs) →
      Ty.substituteAll second (Ty.substituteAll first tys) =
        Ty.substituteAll (first.map fun replacement => replacement.substitute second) tys := by
    intro tys listed
    simp only [Ty.substituteAll_eq_map, List.map_map]
    apply List.map_congr_left
    intro ty inside
    apply Ty.substitute_substitute
    intro width written
    have listedWidth := Ty.mem_widthsAll.mpr ⟨ty, listed ty inside, written⟩
    exact bound width (List.mem_append_left _ listedWidth)
  have conditions : (signature.constraints.map (·.substitute first)).map (·.substitute second) =
      signature.constraints.map
        (·.substitute (first.map fun replacement => replacement.substitute second)) := by
    rw [List.map_map]
    apply List.map_congr_left
    intro condition inside
    exact Static.Expr.substitute_substitute (bound condition (List.mem_append_right _ inside))
  simp only [substitute, conditions, ports _ fun ty => List.mem_append_left _,
    ports _ fun ty => List.mem_append_right _]

end Signature

namespace Catalog

variable {catalog : Catalog} {name : String} {signature : Signature} {args : List Static.Expr}

/-- **Instantiation is simultaneous.**  At integer arguments, as many as there are parameters, a
known signature is instantiated, and the result has at every place a width or a condition with the
value that the stored one has where each parameter has the value of its argument, the last one if
the parameter is repeated.  The values of the arguments are those before any parameter is changed. -/
theorem instantiate_simultaneous (known : catalog.get? name = some signature)
    (wellKinded : signature.WellKinded) (arity : args.length = signature.params.length)
    (integers : ∀ arg ∈ args, arg.HasKind .int) (reading : Reading) (values : Valuation) :
    let updated := values.updateAll
      (signature.params.zip (args.map fun arg => arg.value reading values))
    ∃ result, catalog.instantiate name args = .ok result ∧
      result.Like (Ty.Like (.reads reading values updated))
        (Static.Expr.Reads reading values updated .bool) signature := by
  intro updated
  refine ⟨_, instantiate_eq_ok known arity, ?_⟩
  have bound : ∀ param arg, (Bindings.ofList (signature.params.zip args)).get? param = some arg →
      arg.HasKind .int := fun param arg found =>
    integers arg (List.of_mem_zip (Bindings.mem_of_get?_ofList found)).2
  have same : values.under reading (.ofList (signature.params.zip args)) = updated :=
    Valuation.under_ofList_zip signature.params args
  rw [← same]
  exact signature.substitute_like wellKinded bound

/-- A node with a parameter that is listed twice. -/
def crossed : Signature where
  inputs := [.bits (.var "m"), .product [.bit, .bits (.binary .sub (.var "m") (.var "n"))]]
  outputs := [.bits (.binary .add (.var "m") (.var "n"))]
  params := ["m", "n", "m"]
  constraints := [.binary .lt (.var "n") (.var "m")]

/-- Arguments that mention both parameters, crosswise. -/
def crossedArgs : List Static.Expr :=
  [.int 3, .var "m", .binary .sub (.var "n") (.int 1)]

private theorem crossed_wellKinded : crossed.WellKinded := by
  have widths : ∀ width ∈ Ty.widthsAll (crossed.inputs ++ crossed.outputs),
      width.HasKind .int := by decide +kernel
  have conditions : ∀ condition ∈ crossed.constraints, condition.HasKind .bool := by
    decide +kernel
  exact ⟨fun ty inside width written => widths width (Ty.mem_widthsAll.mpr ⟨ty, inside, written⟩),
    conditions⟩

/-- The caller's `m` is five and its `n` is nine, so the callee's `m` is eight and its `n` is five. -/
theorem instantiate_simultaneous_crossed :
    let reading : Reading := ⟨fun _ => 0, fun _ _ => 0⟩
    let values : Valuation := fun name => if name = "m" then 5 else 9
    let updated := values.updateAll
      (crossed.params.zip (crossedArgs.map fun arg => arg.value reading values))
    crossed.WellKinded ∧ (∀ arg ∈ crossedArgs, arg.HasKind .int) ∧
      updated "m" = 8 ∧ updated "n" = 5 ∧
      ∃ result, (Catalog.empty.register "crossed" crossed).instantiate "crossed" crossedArgs =
          .ok result ∧
        result.outputs =
          [.bits (.binary .add (.binary .sub (.var "n") (.int 1)) (.var "m"))] ∧
        result.Like (Ty.Like (.reads reading values updated))
          (Static.Expr.Reads reading values updated .bool) crossed := by
  intro reading values updated
  have known : (Catalog.empty.register "crossed" crossed).get? "crossed" = some crossed := rfl
  have integers : ∀ arg ∈ crossedArgs, arg.HasKind .int := by decide +kernel
  obtain ⟨result, run, like⟩ :=
    instantiate_simultaneous known crossed_wellKinded rfl integers reading values
  refine ⟨crossed_wellKinded, integers, by decide +kernel, by decide +kernel, result, run, ?_, like⟩
  obtain rfl := Except.ok.inj run
  rfl

/-- **Instantiation commutes with replacing names of the caller.**  Where a known signature speaks
about its own parameters only, replacing names in the instantiated signature gives exactly the
signature that is instantiated at the arguments in which the names are replaced. -/
theorem instantiate_commutes (known : catalog.get? name = some signature)
    (selfContained : signature.SelfContained) (arity : args.length = signature.params.length)
    (bindings : Bindings Static.Expr) :
    ∃ result, catalog.instantiate name args = .ok result ∧
      catalog.instantiate name (args.map fun arg => arg.substitute bindings) =
        .ok (result.substitute bindings) := by
  refine ⟨_, instantiate_eq_ok known arity, ?_⟩
  rw [instantiate_eq_ok known ((List.length_map _).trans arity), ← Bindings.map_ofList_zip,
    Signature.substitute_substitute]
  intro static inside param mentioned
  exact Bindings.get?_ofList_zip_isSome arity (selfContained static inside param mentioned)

private theorem crossed_selfContained : crossed.SelfContained := by
  intro static inside name mentioned
  by_contra absent
  simp only [crossed, List.mem_cons, List.not_mem_nil, or_false, not_or] at absent
  have notM : ("m" == name) = false := beq_eq_false_iff_ne.mpr (Ne.symm absent.1)
  have notN : ("n" == name) = false := beq_eq_false_iff_ne.mpr (Ne.symm absent.2.1)
  simp only [Signature.statics, crossed, Ty.widthsAll, Ty.widths, List.cons_append,
    List.nil_append, List.append_nil, List.mem_cons, List.not_mem_nil, or_false] at inside
  rcases inside with rfl | rfl | rfl | rfl
  · simp [Static.Expr.mentions, notM] at mentioned
  all_goals simp [Static.Expr.mentions, notM, notN] at mentioned

/-- The caller's names are given numbers.  Widths are folded at once, conditions stay as they are
written. -/
theorem instantiate_commutes_crossed :
    let catalog := Catalog.empty.register "crossed" crossed
    let numbers := Bindings.ofList [("m", Static.Expr.int 2), ("n", .int 4)]
    crossed.SelfContained ∧
      ∃ result, catalog.instantiate "crossed" crossedArgs = .ok result ∧
        catalog.instantiate "crossed" (crossedArgs.map fun arg => arg.substitute numbers) =
          .ok (result.substitute numbers) ∧
        (result.substitute numbers).outputs = [.bits (.int 5)] ∧
        (result.substitute numbers).constraints =
          [.binary .lt (.int 2) (.binary .sub (.int 4) (.int 1))] := by
  intro catalog numbers
  have known : catalog.get? "crossed" = some crossed := rfl
  have arity : crossedArgs.length = crossed.params.length := rfl
  obtain ⟨result, run, commuted⟩ := instantiate_commutes known crossed_selfContained arity numbers
  refine ⟨crossed_selfContained, result, run, commuted, ?_, ?_⟩
  · obtain rfl := Except.ok.inj run
    rfl
  · obtain rfl := Except.ok.inj run
    rfl

end Catalog

end CircuitWidths
