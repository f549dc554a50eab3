import UnitScript.Number.Binary

/-!
# Script integers

Integers of a script are whole numbers in the range of 64-bit words.
Arithmetic on them is exact or has no integer result; it never wraps.

* `Number.inRange` is the range, `least` and `greatest` its ends.
* `checked` keeps a result only when it is in range.
* `checkedPower` is the power, without computing one that cannot fit.
* `saturate` is the integer nearest to a real toward zero, held in range.
-/

namespace UnitScript.Number

/-- The least script integer. -/
def least : Int := -9223372036854775808

/-- The greatest script integer. -/
def greatest : Int := 9223372036854775807

/-- Whether `n` is a script integer. -/
def inRange (n : Int) : Bool :=
  decide (least ≤ n ∧ n ≤ greatest)

/-- `n` if it is a script integer. -/
def checked (n : Int) : Option Int :=
  if inRange n then some n else none

/-- `base ^ exponent` if it is a script integer.  A base other than `-1`, `0`
and `1` leaves the range before its 64th power. -/
def checkedPower (base : Int) (exponent : Nat) : Option Int :=
  if base.natAbs ≤ 1 then
    some (if exponent = 0 then 1 else if exponent % 2 = 1 then base else base * base)
  else if exponent < 64 then
    checked (Int.pow base exponent)
  else
    none

/-- A real as script integer: the whole part, the end of the range beyond it,
and zero for what is not a number. -/
def saturate (x : Float) : Int :=
  let b := Binary.ofFloat x
  match b.magnitude with
  | .notANumber => 0
  | .infinite => if b.negative then least else greatest
  | .finite .. => max least (min greatest (b.truncate?.getD 0))

end UnitScript.Number
