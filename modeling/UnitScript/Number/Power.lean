/-!
# Reals beyond the built-in operations

`Number.notReal` is the result of what has none.

`Number.power x p` multiplies by repeated squaring.  The order of the
multiplications is part of the definition, because every product is rounded:
the factors are taken from the lowest binary digit of the exponent upwards,
and a negative power is the reciprocal of the positive one.
-/

namespace UnitScript.Number

/-- The real that is no number. -/
def notReal : Float := 0.0 / 0.0

/-- Multiplies `product` by `base ^ count`, one binary digit of `count` at a
time.  `fuel` bounds the number of digits; `count` itself is always enough. -/
def squareMultiply : (fuel : Nat) → (base product : Float) → (count : Nat) → Float
  | 0, _, product, _ => product
  | fuel + 1, base, product, count =>
      let product := if count % 2 = 1 then product * base else product
      if count / 2 = 0 then product
      else squareMultiply fuel (base * base) product (count / 2)

/-- `x` to the whole power `exponent`. -/
def power (x : Float) (exponent : Int) : Float :=
  let result := squareMultiply exponent.natAbs x 1.0 exponent.natAbs
  if exponent < 0 then 1.0 / result else result

end UnitScript.Number
