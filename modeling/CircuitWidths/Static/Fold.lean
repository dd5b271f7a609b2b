import CircuitWidths.Static.Expr

/-!
# Folding static expressions

Literal operands are computed, and a comparison of two equal sides is decided, from the leaves
upwards.  Division by zero, negative powers and powers that would grow too large stay as they
are written.
-/

namespace CircuitWidths

namespace Static

/-- The greatest exponent that is computed, one less than the 32nd power of two. -/
def maxExponent : Nat := 4294967295

/-- The number of bits that a computed power may take up, estimated from its base: the 16th power
of two. -/
def maxPowerBits : Nat := 65536

/-- The number of binary digits of `n`, none for zero. -/
def bitLength (n : Nat) : Nat :=
  if n = 0 then 0 else n.log2 + 1

/-- The greatest number of 64 bits, one less than the 64th power of two. -/
def maxEstimate : Nat := 18446744073709551615

/-- The product of two numbers, or the greatest number of 64 bits if the product is greater. -/
def saturatingProduct (left right : Nat) : Nat :=
  if maxEstimate < left * right then maxEstimate else left * right

/-- Computes a power, unless its exponent is negative or too great, or the saturated product of the
bits of the base and the exponent, which estimates its size, exceeds `maxPowerBits`.  Bases of at
most one bit never grow and are exempt from the estimate. -/
def power? (base exponent : Int) : Option Int :=
  if exponent < 0 ∨ maxExponent < exponent.toNat then
    none
  else if 1 < bitLength base.natAbs ∧
      maxPowerBits < saturatingProduct (bitLength base.natAbs) exponent.toNat then
    none
  else
    some (base.pow exponent.toNat)

/-- The literal that an operator gives on two integers, if it is computed. Division rounds
toward zero. -/
def Op.fold? : Op → Int → Int → Option Expr
  | .add, left, right => some (.int (left + right))
  | .sub, left, right => some (.int (left - right))
  | .mul, left, right => some (.int (left * right))
  | .div, left, right => if right = 0 then none else some (.int (left.tdiv right))
  | .pow, left, right => (power? left right).map .int
  | .eq, left, right => some (.bool (left == right))
  | .lt, left, right => some (.bool (left < right))
  | .le, left, right => some (.bool (left ≤ right))
  | .gt, left, right => some (.bool (right < left))
  | .ge, left, right => some (.bool (right ≤ left))

/-- The truth value of a comparison whose two sides are the same, if the operator compares. -/
def Op.onSame? : Op → Option Bool
  | .eq | .le | .ge => some true
  | .lt | .gt => some false
  | .add | .sub | .mul | .div | .pow => none

namespace Expr

/-- The operation on two integer literals, computed if that is possible. -/
def foldLiterals? (op : Op) : Expr → Expr → Option Expr
  | .int left, .int right => op.fold? left right
  | _, _ => none

/-- A comparison of an expression with itself, decided. -/
def foldSame? (op : Op) (left right : Expr) : Option Expr :=
  if left = right then op.onSame?.map .bool else none

/-- The operation on two folded sides. -/
def foldBinary (op : Op) (left right : Expr) : Expr :=
  ((foldLiterals? op left right).or (foldSame? op left right)).getD (.binary op left right)

/-- Folds every operation from the leaves upwards. -/
def simplify : Expr → Expr
  | .int value => .int value
  | .bool value => .bool value
  | .var name => .var name
  | .binary op left right => foldBinary op left.simplify right.simplify

end Expr

end Static

end CircuitWidths
