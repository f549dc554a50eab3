import UnitScript.UnitExpr.Basic

/-!
# Value expressions

An `Expr` computes a value.  Parentheses are kept as nodes, because an
expression in parentheses is displayed and cast like the one inside, and every
node carries its span.  A number with a unit behind it, `5 cm`, and a value
with a unit in brackets, `x[cm]`, are both casts.
-/

namespace UnitScript

/-- A constant written in a script. -/
inductive Literal where
  | integer (value : Int)
  | real (value : Float)
  | string (value : String)
  | character (value : Char)
  | boolean (value : Bool)
  | none
deriving DecidableEq

/-- An operator that computes. -/
inductive ArithOp where
  | add
  | sub
  | mul
  | div
  | pow
deriving DecidableEq

namespace ArithOp

/-- The sign of the operator. -/
def text : ArithOp → String
  | .add => "+"
  | .sub => "-"
  | .mul => "*"
  | .div => "/"
  | .pow => "^"

end ArithOp

/-- An operator between values. -/
inductive BinaryOp where
  | arith (op : ArithOp)
  | eq
  | ne
deriving DecidableEq

namespace BinaryOp

/-- The sign of the operator. -/
def text : BinaryOp → String
  | .arith op => op.text
  | .eq => "=="
  | .ne => "!="

end BinaryOp

/-- A value expression. -/
inductive Expr where
  | literal (value : Literal) (span : Span)
  | identifier (name : String) (span : Span)
  | negate (operand : Expr) (span : Span)
  | binary (op : BinaryOp) (left right : Expr) (span : Span)
  | cast (value : Expr) (unit : UnitExpr) (span : Span)
  | paren (inner : Expr) (span : Span)
deriving DecidableEq

namespace Expr

/-- Where the expression stands. -/
def span : Expr → Span
  | .literal _ span => span
  | .identifier _ span => span
  | .negate _ span => span
  | .binary _ _ _ span => span
  | .cast _ _ span => span
  | .paren _ span => span

/-- Joins two operands, with the span that covers both. -/
def join (op : BinaryOp) (left right : Expr) : Expr :=
  .binary op left right (left.span.join right.span)

/-- The expression inside any parentheses. -/
def peel : Expr → Expr
  | .paren inner _ => inner.peel
  | e => e

/-- The name that the expression consists of, looking through parentheses. -/
def name? (e : Expr) : Option String :=
  match e.peel with
  | .identifier name _ => some name
  | _ => none

end Expr

end UnitScript
