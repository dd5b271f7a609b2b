import CircuitWidths.Static.Expr

/-!
# The text of static expressions

Operators stand between their operands with blanks around them, and an operand that is itself an
operation is put in parentheses.
-/

namespace CircuitWidths

namespace Static

/-- The name of a kind in messages. -/
def Kind.render : Kind → String
  | .int => "int"
  | .bool => "bool"

/-- The sign of an operator. -/
def Op.symbol : Op → String
  | .add => "+"
  | .sub => "-"
  | .mul => "*"
  | .div => "/"
  | .pow => "^"
  | .eq => "="
  | .lt => "<"
  | .le => "<="
  | .gt => ">"
  | .ge => ">="

namespace Expr

/-- Puts the text of an operation in parentheses and leaves other texts alone. -/
def parenthesize : Expr → String → String
  | .binary _ _ _, text => "(" ++ text ++ ")"
  | _, text => text

/-- The text of the expression. -/
def render : Expr → String
  | .int value => value.repr
  | .bool value => if value then "true" else "false"
  | .var name => name
  | .binary op left right =>
    parenthesize left left.render ++ " " ++ op.symbol ++ " " ++ parenthesize right right.render

end Expr

end Static

end CircuitWidths
