import UnitScript.Diagnostic.Problem
import UnitScript.Number.Integer
import UnitScript.Units.Measure

/-!
# Quantities

A `Quantity` is what an expression with numbers and units stands for, in SI
base units.  It remembers whether a unit took part, because plain numbers are
computed with and stored differently.

* `Quantity.combine?` is arithmetic on quantities; `mismatch?` is what is wrong
  with it.
* `Quantity.bind` is the unit state of a variable that a quantity is assigned
  to.
-/

namespace UnitScript

/-- An expression reduced to SI base units. -/
structure Quantity where
  si : Float
  dimension : Dimension
  /-- Whether a unit, or a variable with a unit, took part. -/
  carrying : Bool
  /-- The measure of the cast that the expression ends in. -/
  cast : Option Measure
deriving DecidableEq

/-- The integer that an exponent is written as: a literal, perhaps with minus
signs and parentheses around it. -/
def Expr.integerLiteral? : Expr → Option Int
  | .literal (.integer n) _ => some n
  | .negate operand _ => operand.integerLiteral?.bind fun n => Number.checked (-n)
  | .paren inner _ => inner.integerLiteral?
  | _ => none

namespace Quantity

/-- The quantity of a plain number. -/
def plain (x : Float) : Quantity := ⟨x, .dimensionless, false, none⟩

/-- The quantity of a variable. -/
def ofBinding (b : Binding) : Quantity := ⟨b.si, b.dimension, b.carriesUnit, none⟩

/-- Whether two reals are equal up to rounding. -/
def near (a b : Float) : Bool :=
  a == b || (a - b).abs ≤ 1e-12 * (if a.abs < b.abs then b.abs else a.abs)

/-- A power of a quantity.  With a dimension, the exponent must be written as
an integer, because the dimension of the result depends on it. -/
def power? (a b : Quantity) (carrying : Bool) (exponent : Expr) : Option Quantity :=
  if b.dimension.isDimensionless then
    match exponent.integerLiteral? with
    | some p =>
        if Dimension.isExponent p then
          some ⟨Number.power a.si p, a.dimension ^ p, carrying, none⟩
        else
          none
    | none =>
        if a.dimension.isDimensionless then
          some ⟨Float.pow a.si b.si, .dimensionless, carrying, none⟩
        else
          none
  else
    none

/-- Combines two quantities, if the result is one.  `exponent` is the right
operand as it is written. -/
def combine? (op : ArithOp) (a b : Quantity) (exponent : Expr) : Option Quantity :=
  let carrying := a.carrying || b.carrying
  match op with
  | .add =>
      if a.dimension = b.dimension then some ⟨a.si + b.si, a.dimension, carrying, none⟩ else none
  | .sub =>
      if a.dimension = b.dimension then some ⟨a.si - b.si, a.dimension, carrying, none⟩ else none
  | .mul => some ⟨a.si * b.si, a.dimension * b.dimension, carrying, none⟩
  | .div => some ⟨a.si / b.si, a.dimension / b.dimension, carrying, none⟩
  | .pow => a.power? b carrying exponent

/-- What is wrong with adding or subtracting two quantities. -/
def mismatch? (op : ArithOp) (a b : Quantity) : Option Problem :=
  if a.carrying && b.carrying && a.dimension != b.dimension then
    match op with
    | .add => some (.sumMismatch a.dimension b.dimension)
    | .sub => some (.differenceMismatch a.dimension b.dimension)
    | _ => none
  else
    none

/-- The binding of a variable that this quantity is assigned to.  It is
displayed in the measure of its cast, else in the one it had before, else in
SI.  A variable that changes its dimension becomes a plain number. -/
def bind (q : Quantity) (name : String) (previous : Option Binding) : Binding × List Problem :=
  let preferred :=
    match q.cast, previous with
    | some measure, _ => measure
    | none, some binding => binding.preferred
    | none, none => .base q.dimension
  match previous with
  | some binding =>
      if binding.dimension = q.dimension then (⟨q.dimension, q.si, preferred⟩, [])
      else (.plain q.si, [.downgrade name binding.dimension q.dimension])
  | none => (⟨q.dimension, q.si, preferred⟩, [])

end Quantity

end UnitScript
