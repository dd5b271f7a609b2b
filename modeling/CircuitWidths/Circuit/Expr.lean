import CircuitWidths.Source.Span
import CircuitWidths.Static.Expr

/-!
# Circuit expressions

Expressions combine constants and named wires with built-in operators and calls of other nodes.
Widths and addresses in operators and calls are static expressions.
-/

namespace CircuitWidths

namespace Circuit

/-- A name where it stands in the source. -/
structure Ident where
  name : String
  span : Source.Span
  deriving DecidableEq, Repr

/-- A constant bit or a constant bus. -/
inductive Literal
  | bit (value : Bool)
  | bits (values : List Bool)
  deriving DecidableEq, Repr

/-- Gates with two inputs. -/
inductive Gate
  | and
  | or
  | xor
  | nand
  deriving DecidableEq, Repr

/-- Built-in operators.  Positions in a bus count from one; memories are given by the sizes of
their addresses and words. -/
inductive Operator
  | reg
  | not
  | gate (gate : Gate)
  | mux
  | select (index : Static.Expr)
  | slice (first last : Static.Expr)
  | concat
  | rom (addressSize wordSize : Static.Expr)
  | ram (addressSize wordSize : Static.Expr)
  deriving DecidableEq, Repr

/-- An expression, with the span that it takes up. -/
inductive Expr
  | const (span : Source.Span) (value : Literal)
  | wire (span : Source.Span) (id : Ident)
  | apply (span : Source.Span) (operator : Operator) (args : List Expr)
  | call (span : Source.Span) (node : Ident) (statics : List Static.Expr) (args : List Expr)
  deriving Repr

/-- The span of an expression. -/
def Expr.span : Expr → Source.Span
  | .const span _ | .wire span _ | .apply span _ _ | .call span _ _ _ => span

end Circuit

end CircuitWidths
