import UnitScript.Expr.Basic

/-!
# Programs

A `Program` is a list of statements.  A statement assigns to a name, displays
the value of an expression, or is a block of statements with names of its own.
-/

namespace UnitScript

/-- A name where a script writes it. -/
structure Name where
  text : String
  span : Span
deriving DecidableEq

/-- A statement. -/
inductive Stmt where
  /-- Gives a name of the current scope the value of an expression. -/
  | assign (target : Name) (value : Expr) (span : Span)
  /-- Displays the value of an expression. -/
  | display (value : Expr)
  /-- Runs statements in a scope of their own. -/
  | block (body : List Stmt) (span : Span)

namespace Stmt

/-- Where the statement stands. -/
def span : Stmt → Span
  | .assign _ _ span => span
  | .display value => value.span
  | .block _ span => span

/-- The expression that the statement evaluates, if it is not a block. -/
def expr? : Stmt → Option Expr
  | .assign _ value _ => some value
  | .display value => some value
  | .block .. => none

end Stmt

/-- A whole script. -/
structure Program where
  statements : List Stmt
  span : Span

end UnitScript
