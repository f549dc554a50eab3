import UnitScript.Number.Shortest

/-!
# Numbers as text

Reals are written with the fewest digits that identify them and always
positionally: no exponent, no point after a whole number, a minus sign also
for negative zero.  Literals are read as decimals and rounded once.

* `Number.realText` writes a real.
* `Number.ofDigits` and `Number.readReal` read the digits of a literal.
-/

namespace UnitScript.Number

/-- The digits of `d` laid out around the decimal point. -/
def Decimal.positional (d : Decimal) : String :=
  let digits := Nat.toDigits 10 d.coefficient
  if 0 ≤ d.exponent then
    String.ofList (digits ++ List.replicate d.exponent.toNat '0')
  else
    let places := (-d.exponent).toNat
    if places < digits.length then
      String.ofList (digits.take (digits.length - places)) ++ "."
        ++ String.ofList (digits.drop (digits.length - places))
    else
      "0." ++ String.ofList (List.replicate (places - digits.length) '0' ++ digits)

/-- The text of a real. -/
def realText (x : Float) : String :=
  let b := Binary.ofFloat x
  let sign := if b.negative then "-" else ""
  match b.magnitude with
  | .notANumber => "NaN"
  | .infinite => sign ++ "inf"
  | .finite significand exponent lowest =>
      sign ++ (shortest significand exponent lowest).positional

/-- The number that a run of decimal digits denotes. -/
def ofDigits (digits : List Char) : Nat :=
  digits.foldl (fun n c => 10 * n + (c.toNat - '0'.toNat)) 0

/-- The real nearest to `whole.fraction`, both given as digits. -/
def readReal (whole fraction : List Char) : Float :=
  Float.ofScientific (ofDigits (whole ++ fraction)) true fraction.length

end UnitScript.Number
