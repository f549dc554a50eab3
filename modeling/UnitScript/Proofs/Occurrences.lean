import UnitScript.Program.Basic

/-!
# What occurs in a program

The expressions and the units that a program is made of, in the order of the
text, wherever they are nested.

* `UnitExpr.parts` lists the unit expressions inside one, `Expr.units` the units
  that an expression casts to, and `Expr.names` the variables that it reads.
* `Stmt.exprs` and `Stmt.allExprs` list the expressions of statements.
* `Program.units` lists every unit expression of a program.
-/

namespace UnitScript

/-- The unit expression and those inside it. -/
def UnitExpr.parts : UnitExpr → List UnitExpr
  | .symbol name span => [.symbol name span]
  | .number value span => [.number value span]
  | .binary op left right span => .binary op left right span :: (left.parts ++ right.parts)
  | .group inner span => .group inner span :: inner.parts

theorem UnitExpr.mem_parts_self (unit : UnitExpr) : unit ∈ unit.parts := by
  cases unit <;> exact List.mem_cons_self

/-- The units that an expression casts to. -/
def Expr.units : Expr → List UnitExpr
  | .literal .. => []
  | .identifier .. => []
  | .negate operand _ => operand.units
  | .binary _ left right _ => left.units ++ right.units
  | .cast value unit _ => value.units ++ [unit]
  | .paren inner _ => inner.units

/-- The variables that an expression reads. -/
def Expr.names : Expr → List String
  | .literal .. => []
  | .identifier name _ => [name]
  | .negate operand _ => operand.names
  | .binary _ left right _ => left.names ++ right.names
  | .cast value _ _ => value.names
  | .paren inner _ => inner.names

namespace Stmt

mutual

/-- The expressions of a statement. -/
def exprs : Stmt → List Expr
  | .assign _ value _ => [value]
  | .display value => [value]
  | .block body _ => allExprs body

/-- The expressions of statements. -/
def allExprs : List Stmt → List Expr
  | [] => []
  | statement :: later => statement.exprs ++ allExprs later

end

end Stmt

/-- The unit expressions of a program. -/
def Program.units (program : Program) : List UnitExpr :=
  (Stmt.allExprs program.statements).flatMap fun e => e.units.flatMap UnitExpr.parts

theorem Program.mem_units {program : Program} {e : Expr}
    (he : e ∈ Stmt.allExprs program.statements) {unit : UnitExpr} (hunit : unit ∈ e.units) :
    unit ∈ program.units :=
  List.mem_flatMap.2 ⟨e, he, List.mem_flatMap.2 ⟨unit, hunit, unit.mem_parts_self⟩⟩

end UnitScript
