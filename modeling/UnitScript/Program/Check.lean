import UnitScript.Program.Basic
import UnitScript.UnitExpr.Evaluation

/-!
# Checking units before a run

The check evaluates every unit expression of a program once, in the order of
the text, and collects what is wrong with them.
-/

namespace UnitScript

/-- What is wrong with the units of an expression. -/
def Expr.unitComplaints (registry : Registry) : Expr → List Complaint
  | .literal .. => []
  | .identifier .. => []
  | .negate operand _ => operand.unitComplaints registry
  | .binary _ left right _ => left.unitComplaints registry ++ right.unitComplaints registry
  | .cast value unit _ => value.unitComplaints registry ++ (unit.evaluate registry).2
  | .paren inner _ => inner.unitComplaints registry

mutual

/-- What is wrong with the units of a statement. -/
def Stmt.unitComplaints (registry : Registry) : Stmt → List Complaint
  | .assign _ value _ => value.unitComplaints registry
  | .display value => value.unitComplaints registry
  | .block body _ => Stmt.allUnitComplaints registry body

/-- What is wrong with the units of a list of statements. -/
def Stmt.allUnitComplaints (registry : Registry) : List Stmt → List Complaint
  | [] => []
  | statement :: later =>
      statement.unitComplaints registry ++ Stmt.allUnitComplaints registry later

end

/-- Checks the units of a program. -/
def Program.check (registry : Registry) (source : Source) (program : Program) : Diagnostics :=
  Diagnostics.complainAll ∅ source (Stmt.allUnitComplaints registry program.statements)

end UnitScript
