import UnitScript.Token.Stream

/-!
# Reading unit expressions

```text
unit     = factor { ("*" | "/") factor }
factor   = atom [ "^" exponent ]
atom     = identifier | number | "(" unit ")"
exponent = "-" number | atom
```

Any number and any exponent is read; which of them make sense is decided when
the unit is evaluated.
-/

namespace UnitScript.Parse

/-- The operator between two unit factors. -/
def unitOp? : Token.Kind → Option UnitOp
  | .star => some .mul
  | .slash => some .div
  | _ => none

/-- Reads an atom; `inner` reads what stands in parentheses. -/
def unitAtom (inner : Parse UnitExpr) : Parse UnitExpr := do
  match ← peek with
  | .identifier name => return .symbol name (← advance)
  | .integer n => return .number (.integer n) (← advance)
  | .real x => return .number (.real x) (← advance)
  | .leftParen => do
      let opening ← advance
      let unit ← inner
      expect .rightParen
      return .group unit (opening.join (← previous))
  | found => fail (.expectedUnit found)

/-- Reads what stands behind `^`.  A minus sign belongs to the number behind
it. -/
def unitExponent (inner : Parse UnitExpr) : Parse UnitExpr := do
  match ← peek with
  | .minus => do
      let minus ← advance
      match ← peek with
      | .integer n => return .number (.integer (-n)) (minus.join (← advance))
      | .real x => return .number (.real (-x)) (minus.join (← advance))
      | found => fail (.expectedExponent found)
  | _ => unitAtom inner

/-- Reads a factor; `inner` reads what stands in parentheses. -/
def unitFactorWith (inner : Parse UnitExpr) : Parse UnitExpr := do
  let base ← unitAtom inner
  if ← eat .caret then
    return .join .pow base (← unitExponent inner)
  else
    return base

/-- Reads a unit expression.  `fuel` bounds how deep parentheses nest and how
many factors there are. -/
def unitExpr : (fuel : Nat) → Parse UnitExpr
  | 0 => do fail (.expectedUnit (← peek))
  | fuel + 1 => leftAssoc fuel unitOp? (unitFactorWith (unitExpr fuel)) .join

/-- Reads one factor of a unit expression. -/
def unitFactor (fuel : Nat) : Parse UnitExpr := unitFactorWith (unitExpr fuel)

end UnitScript.Parse
