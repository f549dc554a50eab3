import UnitScript.Number.Text
import UnitScript.Span

/-!
# Unit expressions

A `UnitExpr` is what stands between the brackets of `x[m^2/km]` or directly
behind a number.  Every node carries its span.

* `UnitExpr.text` writes a unit expression the way it is read; values are
  displayed with this text as their unit.
-/

namespace UnitScript

/-- A number inside a unit expression. -/
inductive UnitNumber where
  | integer (value : Int)
  | real (value : Float)
deriving DecidableEq

namespace UnitNumber

/-- The text of the number. -/
def text : UnitNumber → String
  | .integer n => toString n
  | .real x => Number.realText x

end UnitNumber

/-- An operator between units. -/
inductive UnitOp where
  | mul
  | div
  | pow
deriving DecidableEq

namespace UnitOp

/-- The sign of the operator. -/
def text : UnitOp → String
  | .mul => "*"
  | .div => "/"
  | .pow => "^"

end UnitOp

/-- A unit expression. -/
inductive UnitExpr where
  | symbol (name : String) (span : Span)
  | number (value : UnitNumber) (span : Span)
  | binary (op : UnitOp) (left right : UnitExpr) (span : Span)
  | group (inner : UnitExpr) (span : Span)
deriving DecidableEq

namespace UnitExpr

/-- Where the expression stands. -/
def span : UnitExpr → Span
  | .symbol _ span => span
  | .number _ span => span
  | .binary _ _ _ span => span
  | .group _ span => span

/-- Joins two operands, with the span that covers both. -/
def join (op : UnitOp) (left right : UnitExpr) : UnitExpr :=
  .binary op left right (left.span.join right.span)

/-- The expression as it is read. -/
def text : UnitExpr → String
  | .symbol name _ => name
  | .number value _ => value.text
  | .binary op left right _ => left.text ++ op.text ++ right.text
  | .group inner _ => "(" ++ inner.text ++ ")"

end UnitExpr

end UnitScript
