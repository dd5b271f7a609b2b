import CircuitWidths.Proofs.Check.Erasure
import CircuitWidths.Proofs.Check.Kinds
import CircuitWidths.Proofs.Check.Numbering
import CircuitWidths.Proofs.Check.Registrations
import CircuitWidths.Proofs.Check.Sharing
import CircuitWidths.Proofs.Check.Timeline

/-!
# Generated widths are new

Generated widths stay in links, conditions, signatures and typed nodes, and come back when a node is
called.  As long as the source does not use their names, all that stand anywhere have numbers below the
counter.  So a width that is generated differs from all that were generated before it, and it stands
nowhere yet (`Circuit.Node.check_generates_fresh`).
-/

namespace CircuitWidths

open CheckM Circuit

/-! ## Where a name stands -/

/-- The name stands in the state: in a link, in a pending condition, or in a known signature. -/
inductive Checker.Holds (name : String) (checker : Checker) : Prop
  | link {id : TyVar} {ty : Ty} (linked : checker.types.Linked id ty) (mentions : ty.Mentions name)
  | pending {condition : Static.Expr} (inside : condition ∈ checker.constraints.pending)
      (mentioned : condition.mentions name = true)
  | known {node : String} {signature : Signature} {static : Static.Expr}
      (known : checker.catalog.get? node = some signature) (inside : static ∈ signature.statics)
      (mentioned : static.mentions name = true)
  | param {node : String} {signature : Signature}
      (known : checker.catalog.get? node = some signature) (inside : name ∈ signature.params)

/-- The name stands in the typed node: in a type, in a condition, in what is written in its body, or
among its parameters. -/
inductive Typed.Node.Holds (name : String) (typed : Typed.Node) : Prop
  | type {ty : Ty} (inside : ty ∈ typed.tys) (mentions : ty.Mentions name)
  | condition {condition : Static.Expr} (inside : condition ∈ typed.signature.constraints)
      (mentioned : condition.mentions name = true)
  | written {static : Static.Expr} (inside : static ∈ typed.body.erase.statics)
      (mentioned : static.mentions name = true)
  | param (inside : name ∈ typed.params.map (·.name) ++ typed.signature.params)

namespace Circuit

private theorem Expr.bareAll_statics {exprs : List Expr}
    (each : ∀ expr ∈ exprs, expr.bare.statics = expr.statics) :
    Expr.staticsAll (Expr.bareAll exprs) = Expr.staticsAll exprs := by
  induction exprs with
  | nil => rfl
  | cons expr rest ih =>
      obtain ⟨head, tail⟩ := List.forall_mem_cons.mp each
      rw [Expr.bareAll, Expr.staticsAll, Expr.staticsAll, head, ih tail]

private theorem Expr.bare_statics (expr : Expr) : expr.bare.statics = expr.statics := by
  induction expr with
  | const span value | wire span id => simp [Expr.bare, Expr.statics]
  | apply span operator args ih =>
      rw [Expr.bare, Expr.statics, Expr.statics, Expr.bareAll_statics ih]
  | call span node statics args ih =>
      rw [Expr.bare, Expr.statics, Expr.statics, Expr.bareAll_statics ih]

/-- Nothing is written in a bare body that is not written in the body. -/
theorem Block.bare_statics {block : Block} : ∀ static ∈ block.bare.statics,
    static ∈ block.statics := by
  induction block with
  | system span locals equations =>
      intro static inside
      rcases List.mem_append.mp inside with declared | written
      · obtain ⟨_, bared, declared⟩ := List.mem_flatMap.mp declared
        obtain ⟨wire, _, rfl⟩ := List.mem_map.mp bared
        cases declared
      · obtain ⟨_, bared, written⟩ := List.mem_flatMap.mp written
        obtain ⟨equation, member, rfl⟩ := List.mem_map.mp bared
        rw [Equation.bare, Expr.bare_statics] at written
        exact List.mem_append_right _ (List.mem_flatMap.mpr ⟨equation, member, written⟩)
  | choice span condition onTrue onFalse ihTrue ihFalse =>
      intro static inside
      rcases List.mem_cons.mp inside with rfl | inside
      · exact List.mem_cons_self
      · apply List.mem_cons_of_mem
        rcases List.mem_append.mp inside with inTrue | inFalse
        · exact List.mem_append_left _ (ihTrue static inTrue)
        · exact List.mem_append_right _ (ihFalse static inFalse)

end Circuit

variable {stem : String} {settings : CheckSettings} {checker next : Checker} {node : Node}
  {nodes : List Node} {typed : Typed.Node} {regime : Regime} {origin : TypeStore}

/-- Generated widths that stand in the state have numbers below the counter. -/
theorem Checker.KeepsTo.holds_below (kept : checker.KeepsTo (numbering stem) (.empty 0)) (index : Nat)
    (holds : checker.Holds (stem ++ index.repr)) : index < checker.nextWidth := by
  cases holds with
  | link linked mentions =>
      obtain ⟨width, inside, mentioned⟩ := mentions
      exact (kept.conforms.state.types.links _ _ linked (Nat.zero_le _)).widths width inside index
        mentioned
  | pending inside mentioned => exact kept.conforms.state.pending _ inside index mentioned
  | known known inside mentioned => exact (kept.known _ _ known).statics _ inside index mentioned
  | param known inside => exact ((kept.known _ _ known).params index inside).elim

private theorem Checker.KeepsTo.numbers (kept : checker.KeepsTo (numbering stem) origin) :
    checker.Numbers stem :=
  ⟨kept.conforms.stem, kept.known⟩

/-- Generated widths that stand in an accepted node have numbers below the counter. -/
theorem Circuit.Node.typed_holds_below (ready : checker.Ready) (numbers : checker.Numbers stem)
    (spares : node.Spares stem) (accepted : node.check checker = .ok typed next) (index : Nat)
    (holds : typed.Holds (stem ++ index.repr)) : index < next.nextWidth := by
  obtain ⟨phases⟩ := node.exists_phases ready accepted
  have typedAs := node.typedAs_of_check ready accepted
  have below := (phases.below ready numbers spares).typed
  cases holds with
  | type inside mentions =>
      obtain ⟨width, written, mentioned⟩ := mentions
      exact below.types _ inside width written index mentioned
  | condition inside mentioned => exact below.conditions _ inside index mentioned
  | @written static inside mentioned =>
      rw [typedAs.body] at inside
      have absent := spares.statics static
        (List.mem_append_right _ (Block.bare_statics static inside)) index
      rw [absent] at mentioned
      cases mentioned
  | param inside =>
      rw [typedAs.params, phases.concluded.signature] at inside
      rcases List.mem_append.mp inside with own | registered
      · exact (spares.params index own).elim
      · exact (spares.params index registered).elim

/-! ## Sessions -/

private theorem Checker.KeepsTo.check (kept : checker.KeepsTo regime origin)
    (reached : checker.Reached) (keeps : node.KeepsTo regime) :
    (finalState (node.check checker)).KeepsTo regime origin := by
  apply (Node.check_keepsTo keeps checker ⟨kept, reached.ready.types⟩).final
  · exact fun _ _ returned => returned.1.1
  · exact fun _ _ failed => failed.1

private theorem Checker.KeepsTo.afterEach (kept : checker.KeepsTo regime origin)
    (reached : checker.Reached) (keeps : ∀ node ∈ nodes, node.KeepsTo regime) :
    (checker.afterEach nodes).KeepsTo regime origin := by
  induction nodes generalizing checker with
  | nil => exact kept
  | cons node nodes ih =>
      obtain ⟨nodeKeeps, restKeep⟩ := List.forall_mem_cons.mp keeps
      exact ih (kept.check reached nodeKeeps) (reached.check node) restKeep

private theorem Checker.advances_afterEach (checker : Checker) (nodes : List Node) :
    checker.Advances (checker.afterEach nodes) := by
  induction nodes generalizing checker with
  | nil => exact .refl checker
  | cons node nodes ih => exact (node.check_advancing.advances checker).trans (ih _)

/-- The typed nodes that the checks of the nodes, one after another, return. -/
def Checker.typedOfEach (checker : Checker) : List Node → List Typed.Node
  | [] => []
  | node :: nodes => (returned? (node.check checker)).toList ++
      (finalState (node.check checker)).typedOfEach nodes

private theorem Checker.KeepsTo.typed_below (kept : checker.KeepsTo (numbering stem) (.empty 0))
    (reached : checker.Reached) (spares : ∀ node ∈ nodes, node.Spares stem) :
    ∀ typed ∈ checker.typedOfEach nodes, ∀ index : Nat, typed.Holds (stem ++ index.repr) →
      index < (checker.afterEach nodes).nextWidth := by
  induction nodes generalizing checker with
  | nil =>
      intro typed inside
      cases inside
  | cons node nodes ih =>
      intro typed inside index holds
      obtain ⟨nodeSpares, restSpare⟩ := List.forall_mem_cons.mp spares
      rcases List.mem_append.mp inside with here | later
      · cases run : node.check checker with
        | error error next =>
            rw [run] at here
            cases here
        | ok value next =>
            rw [run] at here
            obtain rfl := List.mem_singleton.mp here
            have below := Node.typed_holds_below reached.ready kept.numbers nodeSpares run index holds
            rw [afterEach_cons, run]
            exact below.trans_le (advances_afterEach next nodes).nextWidth
      · exact ih (kept.check reached nodeSpares.keepsTo) (reached.check node) restSpare typed later
          index holds

private theorem Checker.start_keepsTo_numbering (settings : CheckSettings) :
    (start settings).KeepsTo (numbering settings.widthStem) (.empty 0) where
  conforms := ⟨rfl, Nat.zero_le _, .refl _, fun _ inside => by cases inside⟩
  closed := (start_ready settings).catalog
  known := fun _ _ found => by cases found

/-! ## Moments -/

/-- The types in what a task has returned: typed forms that are still to be put together, and scopes. -/
def Task.gives : Task → Checker → List Ty
  | .infer env expr, checker => (returned? (env.infer expr checker)).elim [] (·.tys)
  | .inferAll env args expected, checker =>
    (returned? (env.inferAll args expected checker)).elim [] Typed.Expr.tysAll
  | .checkEquation env equation, checker =>
    (returned? (env.checkEquation equation checker)).elim [] (·.value.tys)
  | .declare env locals, checker =>
    (returned? (env.declare locals checker)).elim [] fun (inner, wires) =>
      inner.entries.map (·.2) ++ wires.map (·.ty)
  | .assume env condition, checker =>
    (returned? (env.assume condition checker)).elim [] (·.entries.map (·.2))
  | .checkBlock env block, checker => (returned? (env.checkBlock block checker)).elim [] (·.tys)
  | _, _ => []

/-- The types that a task works on when it is begun, and those that it has found when it ends. -/
def Point.tys : Point → List Ty
  | .begins task _ => task.tys
  | .ends task checker => task.gives checker

private theorem Stays.returned_conform {α : Type} {step : CheckM α} {returns : α → Checker → Prop}
    {tys : α → List Ty} (stays : Stays (regime.standard origin).toCourse step checker returns)
    (each : ∀ value next, returns value next →
      ∀ ty ∈ tys value, ty.Conforms origin (regime.width next.nextWidth)) :
    ∀ ty ∈ (returned? (step checker)).elim [] tys,
      ty.Conforms origin (regime.width (finalState (step checker)).nextWidth) := by
  intro ty inside
  cases run : step checker with
  | ok value next =>
      rw [run] at inside
      obtain ⟨_, _, returned⟩ := stays.returned run
      exact each value next returned ty inside
  | error stop next =>
      rw [run] at inside
      cases inside

/-- What a task has found keeps to the regime. -/
theorem Task.KeepsTo.gives_conform {task : Task} (keeps : task.KeepsTo regime origin checker)
    (kept : checker.KeepsTo regime origin) : ∀ ty ∈ task.gives checker,
      ty.Conforms origin (regime.width (task.after checker).nextWidth) := by
  have conforms := kept.conforms
  cases task with
  | infer env expr =>
      exact (Env.infer_stays (regime.kept origin) (regime.generates origin)
        (Discipline.operands keeps.2) conforms kept.answers keeps.1).returned_conform
        fun _ _ formed => formed
  | inferAll env args expected =>
      obtain ⟨scope, written, expectedConform⟩ := keeps
      apply (Env.inferAll_stays (regime.kept origin) (args_stayAnywhere written)
        (paired args expected) conforms kept.answers scope expectedConform).returned_conform
      intro typedArgs next formed ty inside
      obtain ⟨typed, member, inside⟩ := Typed.Expr.mem_tysAll.mp inside
      exact formed typed member ty inside
  | checkEquation env equation =>
      exact (Env.checkEquation_stays (regime.kept origin) (regime.generates origin)
        (Discipline.operands keeps.2) conforms kept.answers keeps.1).returned_conform
        fun _ _ formed => formed
  | declare env locals =>
      apply (Env.declare_stays (regime.kept origin) (fun wire inside =>
        Discipline.written (keeps.2 wire inside)) conforms keeps.1).returned_conform
      intro declared next formed
      exact List.forall_mem_append.mpr
        ⟨List.forall_mem_map.mpr formed.1, List.forall_mem_map.mpr formed.2⟩
  | assume env condition =>
      obtain ⟨scope, guard, kind⟩ := keeps
      exact (Env.assume_stays (regime.kept origin) guard.standard kind conforms
        scope).returned_conform fun _ _ formed => List.forall_mem_map.mpr formed
  | checkBlock env block =>
      exact (Discipline.checkBlock_stays keeps.2 kept.closed kept.covers conforms
        keeps.1).returned_conform fun _ _ formed => formed
  | _ =>
      intro ty inside
      cases inside

/-- Generated widths in what a task works on or has found have numbers below the counter. -/
theorem Task.KeepsTo.point_below {task : Task}
    (keeps : task.KeepsTo (numbering stem) origin checker)
    (kept : checker.KeepsTo (numbering stem) origin) {point : Point}
    (atTask : point = .begins task checker ∨ point = .ends task checker) {ty : Ty}
    (inside : ty ∈ point.tys) {index : Nat} (mentions : ty.Mentions (stem ++ index.repr)) :
    index < point.state.nextWidth := by
  obtain ⟨width, written, mentioned⟩ := mentions
  rcases atTask with rfl | rfl
  · exact (keeps.tys_conform ty inside).widths width written index mentioned
  · exact (keeps.gives_conform kept ty inside).widths width written index mentioned

/-- Of two widths, the one that is generated later has the greater number. -/
theorem Point.Before.generates {first second : Checker}
    (before : Point.Before (.ends .generate first) (.begins .generate second)) :
    second.settings = first.settings ∧ first.nextWidth < second.nextWidth :=
  ⟨before.advances.settings, before.advances.nextWidth⟩

private theorem CheckM.freshWidth_run (checker : Checker) :
    freshWidth checker = .ok (.var (checker.settings.widthStem ++ checker.nextWidth.repr))
      { checker with nextWidth := checker.nextWidth + 1 } := rfl

/-- **Generated widths are new.**  Nodes are checked one after another, accepted or not, and none of
them uses the name of a generated width.  Then all generated widths that stand in the state or in the
typed nodes have numbers below the counter, also at every moment while a further node is checked.
A width that is generated then has a name that stands nowhere in the state, in no typed node, and in
no type that was worked on or found before, that no node has as a parameter, and that differs from
all names that were generated earlier. -/
theorem Circuit.Node.check_generates_fresh (settings : CheckSettings) {nodes : List Node} {node : Node}
    (spares : ∀ other ∈ node :: nodes, other.Spares settings.widthStem) :
    let generated := fun index : Nat => settings.widthStem ++ index.repr
    let session := (Checker.start settings).afterEach nodes
    let outputs := (Checker.start settings).typedOfEach nodes
    (∀ index, session.Holds (generated index) ∨ (∃ typed ∈ outputs, typed.Holds (generated index)) →
      index < session.nextWidth) ∧
    (∀ task begun, Task.During (.checkNode node) session task begun →
      ∀ index, begun.Holds (generated index) → index < begun.nextWidth) ∧
    ∀ begun, Task.During (.checkNode node) session .generate begun →
      ∃ name after, freshWidth begun = .ok (.var name) after ∧
        ¬ begun.Holds name ∧ (∀ typed ∈ outputs, ¬ typed.Holds name) ∧
        (∀ other ∈ node :: nodes, name ∉ other.paramNames) ∧
        (∀ task moment, Task.During (.checkNode node) session task moment → ∀ point : Point,
          point = .begins task moment ∨ point = .ends task moment →
          point.Before (.begins .generate begun) → ∀ ty ∈ point.tys, ¬ ty.Mentions name) ∧
        ∀ earlier width next, Point.Before (.ends .generate earlier) (.begins .generate begun) →
          freshWidth earlier = .ok width next → width ≠ .var name := by
  intro generated session outputs
  obtain ⟨nodeSpares, nodesSpare⟩ := List.forall_mem_cons.mp spares
  have start : (Checker.start settings).Reached := .start settings
  have startKept := Checker.start_keepsTo_numbering settings
  have kept : session.KeepsTo (numbering settings.widthStem) (.empty 0) :=
    startKept.afterEach start fun other inside => (nodesSpare other inside).keepsTo
  have keeps : (Task.checkNode node).KeepsTo (numbering settings.widthStem) (.empty 0) session :=
    ⟨nodeSpares.keepsTo, (start.afterEach nodes).ready.types⟩
  have outputsBelow := startKept.typed_below start nodesSpare
  have momentsBelow : ∀ task begun, Task.During (.checkNode node) session task begun →
      ∀ index, begun.Holds (generated index) → index < begun.nextWidth :=
    fun task begun during => (during.keepsTo keeps kept).2.1.holds_below
  refine ⟨?_, momentsBelow, ?_⟩
  · rintro index (holds | ⟨typed, inside, holds⟩)
    · exact kept.holds_below index holds
    · exact outputsBelow typed inside index holds
  intro begun during
  have advances : session.Advances begun := during.advances
  have sameSettings : begun.settings = settings :=
    advances.settings.trans (Checker.advances_afterEach _ nodes).settings
  refine ⟨generated begun.nextWidth, { begun with nextWidth := begun.nextWidth + 1 },
    ?_, ?_, ?_, ?_, ?_, ?_⟩
  · rw [freshWidth_run, sameSettings]
  · exact fun holds => Nat.lt_irrefl _ (momentsBelow _ begun during _ holds)
  · intro typed inside holds
    have below : begun.nextWidth < session.nextWidth := outputsBelow typed inside _ holds
    exact Nat.not_lt.mpr advances.nextWidth below
  · exact fun other inside => (spares other inside).params begun.nextWidth
  · intro task moment duringTask point atTask before ty inside mentions
    obtain ⟨taskKeeps, momentKept, _⟩ := duringTask.keepsTo keeps kept
    have below := taskKeeps.point_below momentKept atTask inside mentions
    exact Nat.not_lt.mpr before.advances.nextWidth below
  · intro earlier width next before run same
    obtain ⟨settingsKept, less⟩ := before.generates
    rw [freshWidth_run, ← settingsKept, sameSettings] at run
    cases run
    have sameNumber := generated_injective settings.widthStem (Static.Expr.var.inj same)
    exact Nat.ne_of_lt less sameNumber

namespace Circuit

/-- Where `twice` is accepted, two widths are generated, one after the other. -/
theorem twice_generates (accepted : twice.check checker = .ok typed next) :
    ∃ left right, Task.During (.checkNode twice) checker .generate left ∧
      Task.During (.checkNode twice) checker .generate right ∧
      Point.Before (.ends .generate left) (.begins .generate right) ∧
      checker.Rests left ∧ right.nextWidth = left.nextWidth + 1 := by
  have run := Node.checkDefinition_of_check accepted
  rw [Node.checkDefinition_eq] at run
  obtain ⟨⟨inputs, outputs⟩, introduced, introduceRun, run⟩ := exists_of_bind_ok run
  obtain ⟨body, _, bodyRun, _⟩ := exists_of_bind_ok run
  obtain ⟨⟨inner, wires⟩, declared, declareRun, run⟩ := exists_of_bind_ok bodyRun
  obtain ⟨equations, _, equationsRun, _⟩ := exists_of_bind_ok run
  rw [List.mapM_cons] at equationsRun
  obtain ⟨equation, _, equationRun, _⟩ := exists_of_bind_ok equationsRun
  obtain ⟨expected, matched, patternRun, _⟩ := exists_of_bind_ok equationRun
  have rests : checker.Rests matched :=
    (twice.introduce_moves.rested introduceRun).trans (((Env.declare_moves _ _).rested
      declareRun).trans ((Env.patternTy_moves _ _).rested patternRun))
  have definition : Task.During (.checkNode twice) checker (.checkDefinition twice) checker :=
    .inner .whole (.node .nodeDefinition)
  have system := definition.inner (.node (.nodeBody introduceRun))
  have value := (system.inner (.body (.systemEquation declareRun .first))).inner
    (.body (.equationValue patternRun))
  have concat := value.inner (.expr .applyRule)
  have leftInside : Task.Involves (.ofOperator ⟨0, 0, 0⟩ .concat) matched .generate matched :=
    .expr (.operatorWidth (by simp [Operator.statics]) (show 0 < 2 by decide) rfl)
  have rightInside : Task.Involves (.ofOperator ⟨0, 0, 0⟩ .concat) matched .generate
      (Task.generate.after matched) :=
    .expr (.operatorWidth (by simp [Operator.statics]) (show 1 < 2 by decide) rfl)
  exact ⟨matched, _, concat.inner leftInside, concat.inner rightInside,
    .single (.proceed leftInside rightInside), rests, rfl⟩

/-- The widths of both sides of a concatenation, in a session that already has generated two and left
one of them in a known signature. -/
theorem Node.check_generates_fresh_twice :
    (∀ other ∈ [twice, join], other.Spares "$w") ∧
    let session := (Checker.start {}).afterEach [join]
    session.Holds "$w1" ∧
    ∃ left right, Task.During (.checkNode twice) session .generate left ∧
      Task.During (.checkNode twice) session .generate right ∧
      Point.Before (.ends .generate left) (.begins .generate right) ∧
      ∃ width leftNext rightNext, freshWidth left = .ok width leftNext ∧
        freshWidth right = .ok (.var "$w3") rightNext ∧ ¬ right.Holds "$w3" ∧ width ≠ .var "$w3" := by
  have overOwn : ∀ other ∈ [twice, join], other.OverParams := by
    simp [Node.OverParams, Node.statics, twice, join, DeclaredTy.statics, DeclaredTy.toTy,
      Ty.widths, Block.statics, Local.statics, Expr.statics, Expr.staticsAll, Operator.statics,
      Static.Expr.mentions, Node.paramNames]
  have apart : ∀ other ∈ [twice, join], ∀ param ∈ other.paramNames,
      "$w".toList.isPrefixOf param.toList = false := by
    decide
  have spares : ∀ other ∈ [twice, join], other.Spares "$w" :=
    fun other inside => (overOwn other inside).spares (apart other inside)
  refine ⟨spares, ?_⟩
  intro session
  have counted : session.nextWidth = 2 := by decide +kernel
  have known : session.catalog.get? "join" = some joinSignature := by decide +kernel
  have computed : hasReturned (twice.check session) := by decide +kernel
  obtain ⟨typed, next, accepted⟩ := exists_of_hasReturned computed
  obtain ⟨left, right, duringLeft, duringRight, before, rests, follows⟩ := twice_generates accepted
  have numbered : right.nextWidth = 3 := by rw [follows, rests.nextWidth, counted]
  obtain ⟨_, _, fresh⟩ := Node.check_generates_fresh {} spares
  obtain ⟨name, rightNext, run, absent, _, _, _, differs⟩ := fresh right duringRight
  have settings : right.settings = {} :=
    duringRight.advances.settings.trans (Checker.advances_afterEach _ [join]).settings
  have named : name = "$w3" := by
    rw [freshWidth_run, numbered, settings] at run
    cases run
    decide
  subst named
  exact ⟨.known known (List.mem_append_right _ List.mem_cons_self) (by decide), left, right,
    duringLeft, duringRight, before, _, _, rightNext, freshWidth_run left, run, absent,
    differs left _ _ before (freshWidth_run left)⟩

end Circuit

end CircuitWidths
