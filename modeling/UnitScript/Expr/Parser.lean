import UnitScript.UnitExpr.Parser

/-!
# Reading value expressions

```text
expression = sum { ("==" | "!=") sum }
sum        = product { ("+" | "-") product }
product    = unary { ("*" | "/") unary }
unary      = "-" unary | power
power      = operand [ "^" unary ]
operand    = primary { "[" unit "]" }
primary    = number [ factor ] | string | character | "true" | "false" | "none"
           | identifier | "(" expression ")"
```

A number directly followed by an identifier or an opening parenthesis takes
the unit factor that starts there.  Newlines may stand right inside the
parentheses of a primary.

Expressions and blocks share one budget of nesting levels; an expression uses
one level while it is read.
-/

namespace UnitScript.Parse

/-- An operator that compares. -/
def comparisonOp? : Token.Kind → Option BinaryOp
  | .equal => some .eq
  | .notEqual => some .ne
  | _ => none

/-- An operator between products. -/
def sumOp? : Token.Kind → Option BinaryOp
  | .plus => some (.arith .add)
  | .minus => some (.arith .sub)
  | _ => none

/-- An operator between factors. -/
def productOp? : Token.Kind → Option BinaryOp
  | .star => some (.arith .mul)
  | .slash => some (.arith .div)
  | _ => none

/-- Reads the unit of a number, if one follows directly. -/
def unitSuffix (fuel : Nat) (number : Expr) : Parse Expr := do
  match ← peek with
  | .identifier _ | .leftParen => do
      let unit ← unitFactor fuel
      return .cast number unit (number.span.join unit.span)
  | _ => return number

/-- Reads a primary; `nested` reads what stands in parentheses. -/
def primary (fuel : Nat) (nested : Parse Expr) : Parse Expr := do
  match ← peek with
  | .integer n => do unitSuffix fuel (.literal (.integer n) (← advance))
  | .real x => do unitSuffix fuel (.literal (.real x) (← advance))
  | .string s => return .literal (.string s) (← advance)
  | .character c => return .literal (.character c) (← advance)
  | .keyword .true => return .literal (.boolean true) (← advance)
  | .keyword .false => return .literal (.boolean false) (← advance)
  | .keyword .none => return .literal .none (← advance)
  | .identifier name => return .identifier name (← advance)
  | .leftParen => do
      let opening ← advance
      skipNewlines
      let inner ← nested
      skipNewlines
      expect .rightParen
      return .paren inner (opening.join (← previous))
  | found => fail (.expectedExpression found)

/-- Reads the casts behind `value`.  `fuel` bounds their number. -/
def casts : (fuel : Nat) → Expr → Parse Expr
  | 0, value => pure value
  | fuel + 1, value => do
      if ← eat .leftBracket then
        let unit ← unitExpr fuel
        expect .rightBracket
        casts fuel (.cast value unit (value.span.join (← previous)))
      else
        pure value

/-- Reads a primary and the casts behind it. -/
def operand (fuel : Nat) (nested : Parse Expr) : Parse Expr := do
  let value ← primary fuel nested
  casts fuel value

/-- Reads a power; `exponent` reads what stands behind `^`. -/
def power (fuel : Nat) (nested exponent : Parse Expr) : Parse Expr := do
  let base ← operand fuel nested
  if ← eat .caret then
    return .join (.arith .pow) base (← exponent)
  else
    return base

/-- Reads an expression whose factors `unary` reads. -/
def comparison (fuel : Nat) (unary : Parse Expr) : Parse Expr :=
  leftAssoc fuel comparisonOp?
    (leftAssoc fuel sumOp? (leftAssoc fuel productOp? unary .join) .join) .join

/-- Reads an expression with a budget of nesting levels, of which it takes one.
`unary` reads its factors with the levels that are left. -/
def nestedWith (fuel : Nat) (unary : (levels : Nat) → Parse Expr) : (levels : Nat) → Parse Expr
  | 0 => fail .deepExpression
  | levels + 1 => comparison fuel (unary levels)

/-- Reads a factor with a budget of nesting levels.  `fuel` bounds how often
signs, powers and parentheses nest. -/
def unary : (fuel levels : Nat) → Parse Expr
  | 0, _ => do fail (.expectedExpression (← peek))
  | fuel + 1, levels => do
      match ← peek with
      | .minus => do
          let minus ← advance
          let value ← unary fuel levels
          return .negate value (minus.join value.span)
      | _ => power fuel (nestedWith fuel (unary fuel) levels) (unary fuel levels)

/-- Reads an expression with a budget of nesting levels. -/
def expression (fuel levels : Nat) : Parse Expr := nestedWith fuel (unary fuel) levels

end UnitScript.Parse
