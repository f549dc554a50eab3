/-!
# Dimensions

The dimension of a quantity is the power of length in it: `0` for a plain
number, `1` for a length, `2` for an area.  Powers stay in the range of 32-bit
words; an operation that would leave it stops at the end.
-/

namespace UnitScript

/-- The power of length in a quantity. -/
structure Dimension where
  length : Int
deriving DecidableEq

namespace Dimension

/-- The dimension of a plain number. -/
def dimensionless : Dimension := ⟨0⟩

/-- The dimension of a length. -/
def oneLength : Dimension := ⟨1⟩

instance : Inhabited Dimension := ⟨dimensionless⟩

/-- Whether a quantity of this dimension is a plain number. -/
def isDimensionless (d : Dimension) : Bool := d.length == 0

/-- The least power that is kept. -/
def least : Int := -2147483648

/-- The greatest power that is kept. -/
def greatest : Int := 2147483647

/-- The dimension with power `n`, held in range. -/
def saturating (n : Int) : Dimension := ⟨max least (min greatest n)⟩

/-- The dimension of a product. -/
protected def mul (a b : Dimension) : Dimension := saturating (a.length + b.length)

/-- The dimension of a quotient. -/
protected def div (a b : Dimension) : Dimension := saturating (a.length - b.length)

/-- The dimension of a power. -/
protected def pow (a : Dimension) (exponent : Int) : Dimension :=
  saturating (a.length * exponent)

instance : Mul Dimension := ⟨Dimension.mul⟩

instance : Div Dimension := ⟨Dimension.div⟩

instance : HPow Dimension Int Dimension := ⟨Dimension.pow⟩

/-- How messages name a dimension. -/
def text (d : Dimension) : String :=
  if d.length = 0 then "dimensionless"
  else if d.length = 1 then "Length"
  else "Length^" ++ toString d.length

end Dimension

/-- Whether `exponent` is small enough for a unit or a quantity to be raised
to it. -/
def Dimension.isExponent (exponent : Int) : Bool :=
  decide (Dimension.least ≤ exponent ∧ exponent ≤ Dimension.greatest)

end UnitScript
