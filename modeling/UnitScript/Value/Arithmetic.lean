import UnitScript.Expr.Basic
import UnitScript.Value.Basic

/-!
# Arithmetic on plain values

Integers stay integers as long as the exact result is one in range; everything
else is computed in reals.  Only numbers can be computed with.

* `Value.exactResult?` is the exact integer result of an operation.
* `Value.arithmetic` applies an operator, `Value.negate` changes the sign.
-/

namespace UnitScript

namespace Value

variable {ρ : Type}

/-- The number with its sign changed.  The least integer has no opposite among
the integers and becomes a real. -/
def negate : Value ρ → Except Mismatch (Value ρ)
  | .integer n =>
      match Number.checked (-n) with
      | some opposite => .ok (.integer opposite)
      | none => .ok (.real (-(Float.ofInt n)))
  | v => do return .real (-(← v.toReal))

/-- The exact result of an operation on integers, if it is an integer in
range.  Powers need an exponent that is neither negative nor beyond 32 bits. -/
def exactResult? (op : ArithOp) (a b : Int) : Option Int :=
  match op with
  | .add => Number.checked (a + b)
  | .sub => Number.checked (a - b)
  | .mul => Number.checked (a * b)
  | .div => none
  | .pow => if 0 ≤ b ∧ b < 4294967296 then Number.checkedPower a b.toNat else none

/-- The integer result of an operation on two integers, if there is one. -/
def integral? (op : ArithOp) : Value ρ → Value ρ → Option Int
  | .integer a, .integer b => exactResult? op a b
  | _, _ => none

/-- An operation on reals. -/
def onReals (op : ArithOp) (a b : Float) : Float :=
  match op with
  | .add => a + b
  | .sub => a - b
  | .mul => a * b
  | .div => a / b
  | .pow => Float.pow a b

/-- Arithmetic on plain values.  Integers stay integers as long as the result
is one in range; everything else is computed in reals. -/
def arithmetic (op : ArithOp) (a b : Value ρ) : Except Mismatch (Value ρ) :=
  match integral? op a b with
  | some n => .ok (.integer n)
  | none => do return .real (onReals op (← a.toReal) (← b.toReal))

end Value

end UnitScript
