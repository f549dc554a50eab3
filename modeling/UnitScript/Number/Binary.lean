/-!
# Reals as binary fractions

`Number.Binary` takes a real apart: a sign, and either a whole significand
times a power of two, an infinity, or no number at all.  Printing and
truncation work on this form in exact arithmetic.
-/

namespace UnitScript.Number

/-- The magnitude of a real. -/
inductive Magnitude where
  /-- `significand * 2 ^ exponent`.  `lowest` says that the significand is the
  smallest of its binade, so the next smaller real is only half as far away as
  the next larger one. -/
  | finite (significand : Nat) (exponent : Int) (lowest : Bool)
  | infinite
  | notANumber
deriving DecidableEq

/-- A real as sign and magnitude. -/
structure Binary where
  negative : Bool
  magnitude : Magnitude
deriving DecidableEq

namespace Binary

/-- The leading bit of a significand, which is not stored: the stored fraction
has 52 bits, below the exponent field of eleven bits and the sign. -/
def hidden : Nat := 4503599627370496

/-- Takes a real apart. -/
def ofFloat (x : Float) : Binary :=
  let bits := x.toBits.toNat
  let field : Nat := bits / hidden % 2048
  let fraction : Nat := bits % hidden
  { negative := decide (bits / (2048 * hidden) = 1)
    magnitude :=
      if field = 2047 then (if fraction = 0 then .infinite else .notANumber)
      else if field = 0 then .finite fraction (-1074) false
      else .finite (hidden + fraction) ((field : Int) - 1075) (fraction = 0 && field > 1) }

/-- The whole part, toward zero.  An infinity has none, and neither has
anything that is not a number. -/
def truncate? (b : Binary) : Option Int :=
  match b.magnitude with
  | .finite significand exponent _ =>
      let whole : Nat :=
        if 0 ≤ exponent then significand * Nat.pow 2 exponent.toNat
        else significand / Nat.pow 2 (-exponent).toNat
      some (if b.negative then -(whole : Int) else whole)
  | _ => none

end Binary

end UnitScript.Number
