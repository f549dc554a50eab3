import UnitScript.Proofs.Occurrences
import UnitScript.Proofs.Session.Steps

/-!
# Calls on a session

A session is driven by calls, and a call that stops with a fault leaves a
session that can be called again.  A session is reachable when some list of
calls leads to it from a fresh one.

* `Call` lists the calls, `Call.run` is what each of them does and `Call.exprs`
  what it evaluates.
* `performAll` performs calls one after the other, faults included.
* `performAll_induction` reduces an invariant of all reachable sessions to
  what one call preserves.
-/

namespace UnitScript

/-- A call on a session. -/
inductive Call where
  | exec (statement : Stmt)
  | execProgram (program : Program)
  | assign (name : String) (value : Expr)
  | evaluate (value : Expr)
  | quantity (value : Expr)
  | render (value : Expr)
  | measure (unit : UnitExpr)
  | openScope
  | closeScope

namespace Call

/-- The expressions of a call. -/
def exprs : Call → List Expr
  | .exec statement => statement.exprs
  | .execProgram program => Stmt.allExprs program.statements
  | .assign _ value | .evaluate value | .quantity value | .render value => [value]
  | .measure _ | .openScope | .closeScope => []

variable {π ρ : Type} [StringPool π ρ] [DecidableEq ρ] [ToString ρ]

/-- What a call does, without the value it gives back. -/
def run : Call → Run π ρ Unit
  | .exec statement => Session.exec statement
  | .execProgram program => Session.execAll program.statements
  | .assign name value => do let _ ← Session.assign name value
  | .evaluate value => do let _ ← Session.evaluate value
  | .quantity value => do let _ ← Session.quantity value
  | .render value => do let _ ← Session.render value
  | .measure unit => do let _ ← Session.measure unit
  | .openScope => Session.openScope
  | .closeScope => Session.closeScope

end Call

namespace Session

variable {π ρ : Type} [StringPool π ρ] [DecidableEq ρ] [ToString ρ]

/-- The session after a call. -/
def perform (session : Session π ρ) (call : Call) : Session π ρ := final (call.run session)

/-- The session after calls that follow each other. -/
def performAll (session : Session π ρ) (calls : List Call) : Session π ρ :=
  calls.foldl perform session

/-- What holds at first and is preserved by every call holds after any
calls. -/
theorem performAll_induction {P : Session π ρ → Prop}
    (hstep : ∀ session call, P session → P (session.perform call)) {session : Session π ρ}
    (h : P session) (calls : List Call) : P (session.performAll calls) := by
  induction calls generalizing session with
  | nil => exact h
  | cons call later ih => exact ih (hstep session call h)

end Session

end UnitScript
