import UnitScript.Number.Binary

/-!
# The fewest decimal digits that identify a real

Every decimal strictly between the midpoints to the two neighbours of a real
reads back as that real, and so do the midpoints themselves when the
significand is even.  `Number.shortest` searches the grids of one digit, two
digits and so on: the first grid with a point in that interval gives the
digits.  Of two points the nearer one is taken, and the larger one when both
are equally near.

* `Decimal` is a coefficient times a power of ten.
* `Neighbourhood` is the interval of a real, with exact bounds.
* `shortest` picks the decimal.
-/

namespace UnitScript.Number

/-- `coefficient * 10 ^ exponent`. -/
structure Decimal where
  coefficient : Nat
  exponent : Int
deriving DecidableEq

namespace Decimal

/-- Moves zeros at the end of the coefficient into the exponent.  `fuel`
bounds how many. -/
def stripZeros : (fuel : Nat) → Decimal → Decimal
  | 0, d => d
  | fuel + 1, d =>
      if d.coefficient ≠ 0 ∧ d.coefficient % 10 = 0 then
        stripZeros fuel ⟨d.coefficient / 10, d.exponent + 1⟩
      else
        d

end Decimal

/-- The decimals that read back as one real.  Values are counted in quarters
of the last place of the significand: the real itself is
`middle * 2 ^ exponent`, and the interval goes from `low` to `high` in the same
measure. -/
structure Neighbourhood where
  low : Nat
  middle : Nat
  high : Nat
  exponent : Int
  closed : Bool
deriving DecidableEq

namespace Neighbourhood

/-- The interval of `significand * 2 ^ exponent`. -/
def ofFinite (significand : Nat) (exponent : Int) (lowest : Bool) : Neighbourhood where
  low := 4 * significand - (if lowest then 1 else 2)
  middle := 4 * significand
  high := 4 * significand + 2
  exponent := exponent - 2
  closed := significand % 2 = 0

/-- Factors `(a, b)` such that `n * 2 ^ e` and `c * 10 ^ g` compare as
`n * a` and `c * b`. -/
def factors (e g : Int) : Nat × Nat :=
  (Nat.pow 2 e.toNat * Nat.pow 10 (-g).toNat, Nat.pow 2 (-e).toNat * Nat.pow 10 g.toNat)

/-- Whether the decimal `coefficient * 10 ^ grid` lies in the interval. -/
def holds (i : Neighbourhood) (coefficient : Nat) (grid : Int) : Bool :=
  let (a, b) := factors i.exponent grid
  if i.closed then i.low * a ≤ coefficient * b && coefficient * b ≤ i.high * a
  else i.low * a < coefficient * b && coefficient * b < i.high * a

/-- The power of ten just above the real: the least `k` with
`middle * 2 ^ exponent < 10 ^ k`. -/
def scale (i : Neighbourhood) : Int :=
  let (a, b) := factors i.exponent 0
  let value := i.middle * a
  if b ≤ value then ((Nat.toDigits 10 (value / b)).length : Int)
  else 1 - ((Nat.toDigits 10 ((b - 1) / value)).length : Int)

/-- The point of the grid `10 ^ grid` in the interval that is nearest to the
real, the larger one when two are equally near. -/
def nearest? (i : Neighbourhood) (grid : Int) : Option Nat :=
  let (a, b) := factors i.exponent grid
  let value := i.middle * a
  let below := value / b
  let remainder := value % b
  match i.holds below grid, i.holds (below + 1) grid with
  | true, true => some (if b ≤ 2 * remainder then below + 1 else below)
  | true, false => some below
  | false, true => some (below + 1)
  | false, false => none

/-- Tries grids of more and more digits. -/
def search (i : Neighbourhood) (top : Int) : (fuel digits : Nat) → Decimal
  | 0, digits => ⟨(i.nearest? (top - digits)).getD 0, top - digits⟩
  | fuel + 1, digits =>
      match i.nearest? (top - digits) with
      | some coefficient => ⟨coefficient, top - digits⟩
      | none => search i top fuel (digits + 1)

end Neighbourhood

/-- The shortest decimal that reads back as `significand * 2 ^ exponent`.
Seventeen digits always suffice. -/
def shortest (significand : Nat) (exponent : Int) (lowest : Bool) : Decimal :=
  if significand = 0 then ⟨0, 0⟩
  else
    let i := Neighbourhood.ofFinite significand exponent lowest
    (i.search i.scale 17 1).stripZeros 18

end UnitScript.Number
