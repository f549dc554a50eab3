import UnitScript.Number.Power
import UnitScript.Units.Registry

/-!
# Measures and bindings

A `Measure` is what a unit expression evaluates to: a factor to SI base units,
a dimension, and the text that values in this unit are displayed with.  A
`Binding` is the unit state of a variable: its value in SI base units and the
measure it is displayed in.

* `Measure.invalid` stands for a unit expression without meaning; any factor
  that is not finite counts as invalid.
* `Measure.mul`, `div` and `pow` combine measures, `Measure.ofSI` expresses an
  SI value in one.
* `Binding.displayed` is the value shown for a variable.
-/

namespace UnitScript

/-- The meaning of a unit expression. -/
structure Measure where
  /-- SI base units per one of this unit. -/
  scale : Float
  dimension : Dimension
  /-- The text of the unit.  SI base units and plain numbers have none. -/
  label : Option String
deriving DecidableEq

namespace Measure

/-- The SI base unit of a dimension. -/
def base (dimension : Dimension) : Measure := ⟨1.0, dimension, none⟩

/-- The measure of plain numbers. -/
def one : Measure := base .dimensionless

/-- The measure of a unit expression without meaning. -/
def invalid : Measure := ⟨Number.notReal, .dimensionless, none⟩

/-- The measure of a registered unit. -/
def named (symbol : String) (unit : UnitDef) : Measure := ⟨unit.scale, unit.dimension, some symbol⟩

/-- Whether values can be expressed in this measure. -/
def isValid (m : Measure) : Bool := m.scale.isFinite

/-- Whether this is the measure of plain numbers, whatever its label. -/
def isPlain (m : Measure) : Bool := m.dimension.isDimensionless && m.scale == 1.0

/-- The measure of a product.  It has no meaning unless both factors have. -/
protected def mul (a b : Measure) : Measure :=
  if a.isValid && b.isValid then ⟨a.scale * b.scale, a.dimension * b.dimension, none⟩ else invalid

/-- The measure of a quotient.  It has no meaning unless both parts have. -/
protected def div (a b : Measure) : Measure :=
  if a.isValid && b.isValid then ⟨a.scale / b.scale, a.dimension / b.dimension, none⟩ else invalid

/-- The measure of a power.  It has no meaning unless the base has. -/
protected def pow (a : Measure) (exponent : Int) : Measure :=
  if a.isValid then ⟨Number.power a.scale exponent, a.dimension ^ exponent, none⟩ else invalid

/-- Expresses an SI value in this measure.  Between different dimensions there
is no such value. -/
def ofSI (m : Measure) (si : Float) (dimension : Dimension) : Float :=
  if dimension = m.dimension then si / m.scale else Number.notReal

end Measure

/-- The unit state of a variable. -/
structure Binding where
  dimension : Dimension
  /-- The value in SI base units of `dimension`. -/
  si : Float
  /-- The measure that the variable is displayed in. -/
  preferred : Measure
deriving DecidableEq

namespace Binding

/-- The binding of a plain number. -/
def plain (si : Float) : Binding := ⟨.dimensionless, si, .one⟩

/-- The value in the preferred measure, or the SI value when that measure
cannot express it. -/
def displayed (b : Binding) : Float :=
  if b.preferred.dimension = b.dimension && b.preferred.scale != 0.0 then
    b.si / b.preferred.scale
  else
    b.si

/-- The text of the unit that the variable is displayed in. -/
def label (b : Binding) : Option String := b.preferred.label

/-- Whether the variable has a unit, as opposed to a plain number. -/
def carriesUnit (b : Binding) : Bool := !b.dimension.isDimensionless || b.label.isSome

end Binding

end UnitScript
