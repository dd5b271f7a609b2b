import CircuitWidths.Proofs.Check.Discipline

/-!
# Static variables in typed nodes

If a program is over the parameters of its nodes, then so are the ports of its typed nodes.  The
types inside a node may mention widths that were generated while it was checked, but none that were
generated for another node.  A type keeps such a width also where solving has eliminated it from
the conditions of the node; what meets the conditions gives it a value.
-/

namespace CircuitWidths

open Circuit

/-- The variable stands in a width of the type. -/
def Ty.Mentions (ty : Ty) (name : String) : Prop :=
  ∃ width ∈ ty.widths, width.mentions name = true

namespace Circuit.Node

/-- All that is written in the node is over its parameters. -/
def OverParams (node : Node) : Prop :=
  ∀ static ∈ node.statics, ∀ name, static.mentions name = true → name ∈ node.paramNames

private theorem OverParams.ports {node : Node} (overOwn : node.OverParams) : node.PortsOverParams :=
  fun port member width declared => overOwn width
    (List.mem_append_left _ (List.mem_flatMap.mpr ⟨port, member, declared⟩))

end Circuit.Node

/-! ## The discipline of own widths -/

/-- The variable is a parameter or a width generated from the `first` on, up to the count. -/
def Own (stem : String) (params : List String) (first count : Nat) (name : String) : Prop :=
  name ∈ params ∨ ∃ index, first ≤ index ∧ index < count ∧ name = stem ++ index.repr

private theorem Own.later {stem : String} {params : List String} {first count more : Nat}
    {name : String} (le : count ≤ more) (own : Own stem params first count name) :
    Own stem params first more name := by
  rcases own with param | ⟨index, made, before, rfl⟩
  · exact .inl param
  · exact .inr ⟨index, made, before.trans_le le, rfl⟩

/-- Widths are over parameters and widths of one's own. -/
def ownWidths (stem : String) (params : List String) (first : Nat) : Discipline where
  stem := stem
  first := first
  width := fun count expr =>
    ∀ name, expr.mentions name = true → Own stem params first count name
  condition := fun _ _ => True
  width_mono := fun le own name mentioned => (own name mentioned).later le
  condition_mono := fun _ _ => trivial
  generated := by
    intro count begun name mentioned
    have same : stem ++ count.repr = name := by simpa [Static.Expr.mentions] using mentioned
    exact .inr ⟨count, begun, Nat.lt_succ_self count, same.symm⟩
  literal := by
    intro count value name mentioned
    cases mentioned
  arithmetic := by
    intro count op left right _ leftOwn rightOwn name mentioned
    rw [Static.Expr.mentions, Bool.or_eq_true] at mentioned
    exact mentioned.elim (leftOwn name) (rightOwn name)
  simplify := fun own name mentioned =>
    own name (Static.Expr.mentions_of_mentions_simplify mentioned)
  relation := fun _ _ _ => trivial

variable {stem : String} {params : List String} {first : Nat}

private theorem ownWidths_of_params {expr : Static.Expr}
    (overOwn : ∀ name, expr.mentions name = true → name ∈ params) (count : Nat) :
    (ownWidths stem params first).width count expr :=
  fun name mentioned => .inl (overOwn name mentioned)

private theorem ownWidths_governs {block : Block}
    (overOwn : ∀ static ∈ block.statics, ∀ name, static.mentions name = true → name ∈ params) :
    (ownWidths stem params first).Governs block := by
  induction block with
  | system span locals equations =>
      obtain ⟨overLocals, overEquations⟩ := List.forall_mem_append.mp overOwn
      refine ⟨fun wire member width written => ownWidths_of_params ?_,
        fun equation member static written _ => ownWidths_of_params ?_⟩
      · exact overLocals width (List.mem_flatMap.mpr ⟨wire, member, written⟩)
      · exact overEquations static (List.mem_flatMap.mpr ⟨equation, member, written⟩)
  | choice span condition onTrue onFalse ihTrue ihFalse =>
      obtain ⟨overCondition, overSides⟩ := List.forall_mem_cons.mp overOwn
      obtain ⟨overTrue, overFalse⟩ := List.forall_mem_append.mp overSides
      refine ⟨fun _ name value equation count width own other mentioned => ?_, ihTrue overTrue,
        ihFalse overFalse⟩
      obtain rfl := Static.Expr.equation?_eq_some equation
      rcases Static.Expr.mentions_substitute
        (Static.Expr.mentions_of_mentions_simplify mentioned) with
        ⟨before, _⟩ | ⟨replaced, replacement, _, bound, inside⟩
      · exact own other before
      -- What replaces a variable is the other side of the condition.
      · rw [Bindings.get?_insert] at bound
        split at bound
        · cases bound
          exact .inl (overCondition other (by simp [Static.Expr.mentions, inside]))
        · cases bound

/-- A call puts static arguments in the place of all variables of a signature. -/
theorem ownWidths_covers {nodes : List Node} {catalog : Catalog} (count : Nat)
    (described : catalog.DescribedBy nodes) (overOwn : ∀ node ∈ nodes, node.PortsOverParams) :
    (ownWidths stem params first).Covers count catalog := by
  intro more _ name args signature instantiated argsOwn
  refine ⟨fun width inside other mentioned => ?_, fun _ _ => trivial⟩
  obtain ⟨registered, known, length, rfl⟩ := Catalog.exists_of_instantiate instantiated
  obtain ⟨callee, member, _, describes⟩ := described name registered known
  obtain ⟨original, inPorts, rfl⟩ := Signature.mem_portWidths_substitute inside
  obtain ⟨port, inNode, declared⟩ := describes.exists_port inPorts
  have sameParams : registered.params = callee.paramNames := congrArg Signature.params describes
  rcases Static.Expr.mentions_substitute_zip length
    (Static.Expr.mentions_of_mentions_simplify mentioned) with
    ⟨before, notParam⟩ | ⟨arg, inArgs, inside⟩
  · rw [sameParams] at notParam
    exact absurd (overOwn callee member port inNode original declared other before) notParam
  · exact argsOwn arg inArgs other inside

/-! ## Typed nodes -/

/-- The static variables in the types of a typed node: those of the ports are parameters, the others
are parameters or were generated when the node was checked, and what meets the conditions of the
node extends to them. -/
structure Circuit.Node.OwnsWidths (node : Node) (stem : String) (checker : Checker)
    (typed : Typed.Node) (next : Checker) : Prop where
  params : typed.params = node.params
  ports : ∀ ty ∈ typed.portTys, ∀ name, ty.Mentions name → name ∈ node.paramNames
  types : ∀ ty ∈ typed.tys, ∀ name, ty.Mentions name →
    Own stem node.paramNames checker.nextWidth next.nextWidth name
  extension : ∀ (reading : Static.Reading) (values : Static.Valuation),
    Static.AllHold reading values typed.signature.constraints →
    ∃ (changed : Static.Valuation) (grounds : TyVar → GroundTy),
      (∀ name, name ∈ node.paramNames ∨ Static.Mentioned name typed.signature.constraints →
        changed name = values name) ∧
      node.body.Elaborates ⟨reading, changed, grounds⟩ (node.callable checker.catalog)
        node.portScope typed.body

variable {checker next : Checker} {node : Node} {typed : Typed.Node}

/-- Every width in the port types of an accepted node is declared at a port. -/
theorem Circuit.Node.Phases.exists_port (phases : node.Phases checker typed next) {ty : Ty}
    {width : Static.Expr} (member : ty ∈ typed.portTys) (inside : width ∈ ty.widths) :
    ∃ port ∈ node.inputs ++ node.outputs, width ∈ port.declared.statics := by
  rcases List.mem_append.mp member with wired | signature
  · rw [phases.concluded.shape, ← List.map_append, List.map_map] at wired
    obtain ⟨port, declared, rfl⟩ := List.mem_map.mp wired
    exact ⟨port, declared, inside⟩
  · have describes : typed.signature.Describes node := phases.concluded.signature
    exact describes.exists_port (Ty.mem_widthsAll.mpr ⟨ty, signature, inside⟩)

private theorem Circuit.Node.Phases.types_own (phases : node.Phases checker typed next)
    (ready : checker.Ready) (overOwn : node.OverParams) {nodes : List Node}
    (described : (node.callable checker.catalog).DescribedBy nodes)
    (overAll : ∀ other ∈ nodes, other.PortsOverParams) :
    ∀ ty ∈ typed.body.tys, ∀ name, ty.Mentions name →
      Own checker.settings.widthStem node.paramNames checker.nextWidth next.nextWidth name := by
  let discipline := ownWidths checker.settings.widthStem node.paramNames checker.nextWidth
  have conforms : checker.Conforms discipline checker.types :=
    ⟨rfl, le_rfl, .refl _, fun _ _ => trivial⟩
  have written : ∀ port ∈ node.inputs ++ node.outputs, ∀ width ∈ port.declared.statics,
      ∀ count, discipline.width count width := fun port member width declared =>
    ownWidths_of_params (overOwn.ports port member width declared)
  have governs : discipline.Governs node.body :=
    ownWidths_governs fun static inside => overOwn static (List.mem_append_right _ inside)
  have bodyConforms := phases.body_conforms ready conforms written governs
    (ownWidths_covers _ described overAll)
  rintro ty member name ⟨width, inside, mentioned⟩
  exact (bodyConforms ty member).widths width inside name mentioned

/-- **Static variables of typed nodes.**  In an accepted program over the parameters of its nodes,
each typed node owns the static variables in its types. -/
theorem Circuit.checkProgram_ownsWidths {settings : CheckSettings} {nodes : List Node}
    {typeds : List Typed.Node} {final : Checker}
    (accepted : checkProgram settings nodes = .ok typeds final)
    (overOwn : ∀ node ∈ nodes, node.OverParams) {typed : Typed.Node} (member : typed ∈ typeds) :
    ∃ before node after earlier checker next, nodes = before ++ node :: after ∧
      checkProgram settings before = .ok earlier checker ∧ node.check checker = .ok typed next ∧
      node.OwnsWidths settings.widthStem checker typed next := by
  obtain ⟨before, node, after, earlier, checker, next, rfl, beforeRun, checked⟩ :=
    exists_of_mem_checkProgram accepted member
  obtain ⟨past, history, inBefore, _⟩ := checkProgram_history beforeRun
  have ready := history.reached.ready
  obtain ⟨phases⟩ := node.exists_phases ready checked
  have overNode : node.OverParams :=
    overOwn node (List.mem_append_right _ List.mem_cons_self)
  have described : (node.callable checker.catalog).DescribedBy (before ++ node :: after) :=
    (history.describedBy fun earlierNode _ inside =>
      List.mem_append_left _ ((inBefore earlierNode).mpr ⟨_, inside⟩)).callable
      (List.mem_append_right _ List.mem_cons_self)
  have inPorts : ∀ ty ∈ typed.portTys, ∀ name, ty.Mentions name → name ∈ node.paramNames := by
    rintro ty inside name ⟨width, written, mentioned⟩
    obtain ⟨port, inNode, declared⟩ := phases.exists_port inside written
    exact overNode.ports port inNode width declared name mentioned
  refine ⟨before, node, after, earlier, checker, next, rfl, beforeRun, checked,
    congrArg Typed.Node.params phases.concluded.shape, inPorts, ?_, fun reading values met =>
      ((node.check_ends ready).returned checked).restores met⟩
  intro ty inside name mentioned
  rcases List.mem_append.mp inside with port | body
  · exact .inl (inPorts ty port name mentioned)
  · rw [← history.settings_eq]
    exact phases.types_own ready overNode described (fun other known => (overOwn other known).ports)
      ty body name mentioned

namespace Circuit

/-- Puts a bus behind itself. -/
def twice : Node :=
  let here : Source.Span := ⟨0, 0, 0⟩
  { span := here
    id := ⟨"twice", here⟩
    params := [⟨"n", here⟩]
    inputs := [⟨⟨"x", here⟩, here, .bits (.var "n")⟩]
    outputs := [⟨⟨"o", here⟩, here, .bits (.binary .add (.var "n") (.var "n"))⟩]
    body := .system here [] [⟨here, .single ⟨"o", here⟩,
      .apply here .concat [.wire here ⟨"x", here⟩, .wire here ⟨"x", here⟩]⟩] }

/-- Puts a bus behind itself, and once more. -/
def thrice : Node :=
  let here : Source.Span := ⟨0, 0, 0⟩
  { span := here
    id := ⟨"thrice", here⟩
    params := [⟨"m", here⟩]
    inputs := [⟨⟨"x", here⟩, here, .bits (.var "m")⟩]
    outputs := [⟨⟨"o", here⟩, here,
      .bits (.binary .add (.binary .add (.var "m") (.var "m")) (.var "m"))⟩]
    body := .system here [] [⟨here, .single ⟨"o", here⟩, .apply here .concat
      [.call here ⟨"twice", here⟩ [.var "m"] [.wire here ⟨"x", here⟩],
        .wire here ⟨"x", here⟩]⟩] }

/-- A node that generates widths and calls another node that does. -/
theorem checkProgram_ownsWidths_thrice :
    ∃ typeds final, checkProgram {} [twice, thrice] = .ok typeds final ∧
      (∀ node ∈ [twice, thrice], node.OverParams) ∧
      ∃ typed ∈ typeds, typed.id.name = "thrice" ∧
        ∃ before node after earlier checker next, [twice, thrice] = before ++ node :: after ∧
          checkProgram {} before = .ok earlier checker ∧ node.check checker = .ok typed next ∧
          node.OwnsWidths "$w" checker typed next := by
  have computed : checkedAs (fun typeds _ => typeds.map (·.id.name)) {} [twice, thrice] =
      some ["twice", "thrice"] := by
    decide +kernel
  obtain ⟨typeds, final, accepted, names⟩ := exists_of_checkedAs computed
  have overOwn : ∀ node ∈ [twice, thrice], node.OverParams := by
    simp [Node.OverParams, Node.statics, twice, thrice, DeclaredTy.statics, DeclaredTy.toTy,
      Ty.widths, Block.statics, Expr.statics, Expr.staticsAll, Operator.statics,
      Static.Expr.mentions, Node.paramNames]
  obtain ⟨typed, member, named⟩ : ∃ typed ∈ typeds, typed.id.name = "thrice" :=
    List.mem_map.mp (by simp [names])
  exact ⟨typeds, final, accepted, overOwn, typed, member, named,
    checkProgram_ownsWidths accepted overOwn member⟩

/-- A typed node in which a generated width stands that is not left in the conditions. -/
theorem twice_keeps_eliminated_width :
    ∃ typeds final, checkProgram {} [twice] = .ok typeds final ∧
      (∀ node ∈ [twice], node.OverParams) ∧
      ∃ typed ∈ typeds, ∃ ty ∈ typed.tys, ty.Mentions "$w0" ∧
        "$w0" ∉ typed.params.map (·.name) ∧
        ¬ Static.Mentioned "$w0" typed.signature.constraints := by
  have computed : checkedAs (fun typeds _ => typeds.map fun typed =>
      (typed.params.map (·.name), typed.body.tys, typed.signature.constraints)) {} [twice] =
      some [(["n"], [.bits (.binary .add (.var "$w0") (.var "$w1")), .bits (.var "n"),
        .bits (.var "n")], [])] := by
    decide +kernel
  obtain ⟨typeds, final, accepted, seen⟩ := exists_of_checkedAs computed
  refine ⟨typeds, final, accepted, ?_, ?_⟩
  · simp [Node.OverParams, Node.statics, twice, DeclaredTy.statics, DeclaredTy.toTy, Ty.widths,
      Block.statics, Expr.statics, Expr.staticsAll, Operator.statics, Static.Expr.mentions,
      Node.paramNames]
  · obtain ⟨typed, rfl, same⟩ := List.map_eq_singleton_iff.mp seen
    obtain ⟨params, same⟩ := Prod.mk.inj same
    obtain ⟨tys, conditions⟩ := Prod.mk.inj same
    refine ⟨typed, List.mem_singleton_self typed, _, List.mem_append_right _
      (tys ▸ List.mem_cons_self), ⟨_, List.mem_singleton_self _, by decide⟩, ?_, ?_⟩
    · rw [params]
      decide
    · rw [conditions]
      rintro ⟨condition, inside, _⟩
      cases inside

end Circuit

end CircuitWidths
