import CircuitWidths.Check.State

/-!
# Typing rules

An operator or a call asks for arguments of certain types, gives a value of a certain type, and
adds conditions on the widths.  Operators on buses take arguments of any width, which a generated
width stands for.
-/

namespace CircuitWidths

open CheckM

/-- What an operator or a call asks for and gives. -/
structure Rule where
  inputs : List Ty
  output : Ty
  conditions : List Static.Expr
  deriving DecidableEq, Repr

namespace Rule

/-- The width of a slice from position `first` to position `last`, both included. -/
def sliceWidth (first last : Static.Expr) : Static.Expr :=
  (Static.Expr.binary .add (.binary .sub last first) (.int 1)).simplify

/-- The rule of an operator; its static arguments have to be integers. -/
def ofOperator (span : Source.Span) : Circuit.Operator → CheckM Rule
  | .reg | .not => pure ⟨[.bit], .bit, []⟩
  | .gate _ => pure ⟨[.bit, .bit], .bit, []⟩
  | .mux => pure ⟨[.bit, .bit, .bit], .bit, []⟩
  | .select index => do
    expectKind span index .int
    let width ← freshWidth
    pure ⟨[.bits width], .bit, [.binary .le index width]⟩
  | .slice first last => do
    expectKind span first .int
    expectKind span last .int
    let width ← freshWidth
    pure ⟨[.bits width], .bits (sliceWidth first last),
      [.binary .lt (.int 0) first, .binary .le last width]⟩
  | .concat => do
    let left ← freshWidth
    let right ← freshWidth
    pure ⟨[.bits left, .bits right], .bits (.binary .add left right), []⟩
  | .rom addressSize wordSize => do
    expectKind span addressSize .int
    expectKind span wordSize .int
    pure ⟨[.bits addressSize], .bits wordSize, []⟩
  | .ram addressSize wordSize => do
    expectKind span addressSize .int
    expectKind span wordSize .int
    pure ⟨[.bits addressSize, .bit, .bits addressSize, .bits wordSize], .bits wordSize, []⟩

/-- The rule of an instantiated signature. -/
def ofSignature (signature : Signature) : Rule :=
  ⟨signature.inputs, .ofOutputs signature.outputs, signature.constraints⟩

/-- The rule of a call: the signature of the called node at the static arguments, which have to be
integers. -/
def ofCall (span : Source.Span) (node : Circuit.Ident) (statics : List Static.Expr) :
    CheckM Rule := do
  statics.forM fun static => expectKind span static .int
  let checker ← get
  match checker.catalog.instantiate node.name statics with
  | .ok signature => pure (ofSignature signature)
  | .error .unboundNode => reject node.span (.unboundNode node.name)
  | .error (.paramsArity found expected) => reject span (.paramsArity found expected)

/-- Refuses a wrong number of arguments. -/
def expectArity (span : Source.Span) (rule : Rule) (count : Nat) : CheckM Unit :=
  if count = rule.inputs.length then pure ()
  else reject span (.argsArity count rule.inputs.length)

/-- Adds the conditions of the rule to the pending constraints. -/
def demand (rule : Rule) : CheckM Unit :=
  rule.conditions.forM emit

end Rule

end CircuitWidths
