import UnitScript.Diagnostic.Problem
import UnitScript.Units.Measure

/-!
# The meaning of unit expressions

`UnitExpr.evaluate` reduces a unit expression to one measure and lists what is
wrong with it, from left to right.  A part without meaning makes the whole
expression invalid without further complaints.

* Only the number `1` is a unit by itself.
* The exponent of `^` must be an integer literal; it is never evaluated as a
  unit.
* A measure with meaning is labelled with the text of the whole expression,
  unless it is that of plain numbers.
-/

namespace UnitScript.UnitExpr

/-- The exponent of `^`, or what is wrong with it. -/
def exponent : UnitExpr → Except Complaint Int
  | .number (.integer n) span =>
      if Dimension.isExponent n then .ok n else .error ⟨.exponentOutOfRange n, span⟩
  | .number (.real x) span => .error ⟨.realExponent x, span⟩
  | e => .error ⟨.nonLiteralExponent e, e.span⟩

/-- The measure of a unit expression without the label of the whole, and what
is wrong with it. -/
def reduce (registry : Registry) : UnitExpr → Measure × List Complaint
  | .symbol name span =>
      match registry.get? name with
      | some unit => (.named name unit, [])
      | none => (.invalid, [⟨.unknownUnit name, span⟩])
  | .number (.integer 1) _ => (.one, [])
  | .number value span => (.invalid, [⟨.bareNumber value, span⟩])
  | .group inner _ => inner.reduce registry
  | .binary .mul left right _ =>
      let (a, complaints) := left.reduce registry
      let (b, more) := right.reduce registry
      (a.mul b, complaints ++ more)
  | .binary .div left right _ =>
      let (a, complaints) := left.reduce registry
      let (b, more) := right.reduce registry
      (a.div b, complaints ++ more)
  | .binary .pow left right _ =>
      let (base, complaints) := left.reduce registry
      match right.exponent with
      | .ok p => (base.pow p, complaints)
      | .error complaint => (.invalid, complaints ++ [complaint])

/-- The measure of a unit expression, and what is wrong with it. -/
def evaluate (registry : Registry) (e : UnitExpr) : Measure × List Complaint :=
  let (measure, complaints) := e.reduce registry
  if measure.isValid && !measure.isPlain then ({ measure with label := some e.text }, complaints)
  else (measure, complaints)

end UnitScript.UnitExpr
