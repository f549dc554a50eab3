import UnitScript.Program.Basic
import UnitScript.Session.Eval

/-!
# Sessions

A `Session` is a script that is being run: its open scopes, its strings, what
was logged and displayed, and how many statements were executed.  An operation
on a session succeeds or stops with a fault, and keeps the session either way.

* `Session.assign` gives a name of the current scope a value.
* `Session.exec` executes a statement, `Session.execAll` a list of them.
* `evaluate`, `quantity`, `render` and `measure` are the questions that can be
  asked without executing anything.
-/

namespace UnitScript

/-- The limits of one run. -/
structure Limits where
  /-- How many statements are executed before the run is stopped. -/
  steps : Nat := 1000000
  /-- How many displayed lines are kept; later ones are only counted. -/
  lines : Nat := 10000
deriving DecidableEq

/-- A script that is being run. -/
structure Session (π ρ : Type) where
  source : Source
  limits : Limits
  registry : Registry
  scopes : Scopes ρ
  store : Store π
  /-- How many statements were executed. -/
  steps : Nat
  output : Array String
  /-- How many displayed lines were not kept. -/
  dropped : Nat

/-- An operation on a session, which can stop with a fault and keeps the
session then. -/
abbrev Run (π ρ α : Type) := EStateM Fault (Session π ρ) α

namespace Session

variable {π ρ α : Type}

/-- A fresh session with the global scope open. -/
def start (source : Source) (limits : Limits) (registry : Registry) (pool : π) : Session π ρ where
  source := source
  limits := limits
  registry := registry
  scopes := .global
  store := ⟨pool, ∅⟩
  steps := 0
  output := #[]
  dropped := 0

/-- What evaluation reads of a session. -/
def context (session : Session π ρ) : Context ρ :=
  ⟨session.source, session.registry, session.scopes⟩

/-! ## Steps that operations are made of -/

/-- Evaluates in a session. -/
def evaluating (eval : Context ρ → Eval π α) : Run π ρ α := fun session =>
  match eval session.context session.store with
  | .ok value store => .ok value { session with store := store }
  | .error fault store => .error fault { session with store := store }

/-- Goes on with a result, or stops with the fault that `fault` makes of an
error. -/
def ofExcept {ε : Type} (fault : ε → Fault) : Except ε α → Run π ρ α
  | .ok value => fun session => .ok value session
  | .error error => fun session => .error (fault error) session

/-- Counts a statement. -/
def tick : Run π ρ Unit := fun session =>
  let session := { session with steps := session.steps + 1 }
  if session.limits.steps < session.steps then .error (.stepLimit session.limits.steps) session
  else .ok () session

/-- Displays a line, or counts it when enough were kept. -/
def emit (line : String) : Run π ρ Unit := fun session =>
  if session.output.size < session.limits.lines then
    .ok () { session with output := session.output.push line }
  else
    .ok () { session with dropped := session.dropped + 1 }

/-- Runs `body`, and `close` in any case.  A fault of `body` counts before one
of `close`. -/
def thenAlways (body close : Run π ρ Unit) : Run π ρ Unit := fun session =>
  match body session with
  | .ok _ session => close session
  | .error fault session =>
      match close session with
      | .ok _ session => .error fault session
      | .error _ session => .error fault session

/-- Opens a scope. -/
def openScope : Run π ρ Unit := fun session =>
  .ok () { session with scopes := session.scopes.openScope }

/-- Puts a variable into the innermost scope and gives back the one it
replaces. -/
def declare (name : String) (held : Variable ρ) : Run π ρ (Option (Variable ρ)) := fun session =>
  match session.scopes.declare name held with
  | .ok (replaced, scopes) => .ok replaced { session with scopes := scopes }
  | .error error => .error (.scope error) session

/-- The measure of a unit expression. -/
def measure (unit : UnitExpr) : Run π ρ Measure :=
  evaluating fun ctx => do
    let (measure, complaints) := unit.evaluate ctx.registry
    Eval.complain ctx complaints
    return measure

/-! ## Strings held by variables -/

variable [StringPool π ρ]

/-- Changes the pool, or stops. -/
def changePool (change : π → Except Heap.Error π) : Run π ρ Unit := fun session =>
  match change session.store.pool with
  | .ok pool => .ok () { session with store := { session.store with pool := pool } }
  | .error error => .error (.heap error) session

/-- Notes that a variable holds a value. -/
def retain : Value ρ → Run π ρ Unit
  | .pointer r => changePool (StringPool.retain r)
  | _ => pure ()

/-- Notes that a variable holds a value no longer. -/
def release : Value ρ → Run π ρ Unit
  | .pointer r => changePool (StringPool.release r)
  | _ => pure ()

/-- Notes that variables no longer hold their values. -/
def releaseAll : List (Variable ρ) → Run π ρ Unit
  | [] => pure ()
  | held :: later => do
      release held.value
      releaseAll later

/-- Closes the innermost scope and lets go of what its variables held.  The
global scope stays. -/
def closeScope : Run π ρ Unit := fun session =>
  match session.scopes.closeScope with
  | (some closed, scopes) => releaseAll closed.values { session with scopes := scopes }
  | (none, _) => .ok () session

/-- Puts a variable into the innermost scope.  The new value is held before
the old one is let go, so that a string assigned to itself stays. -/
def keep (name : String) (held : Variable ρ) : Run π ρ Unit := do
  retain held.value
  match ← declare name held with
  | some replaced => release replaced.value
  | none => pure ()

/-! ## Evaluation and assignment -/

variable [DecidableEq ρ]

/-- The value of an expression. -/
def evaluate (e : Expr) : Run π ρ (Value ρ) := do
  return (← evaluating fun ctx => Eval.expr ctx e).value

/-- The quantity that an expression stands for, if there is one. -/
def quantity (e : Expr) : Run π ρ (Option Quantity) := do
  return (← evaluating fun ctx => Eval.expr ctx e).quantity

/-- Assigns the value of an expression to a name of the current scope, and
gives the value that the name now holds. -/
def assign (name : String) (e : Expr) : Run π ρ (Value ρ) := do
  let evaluated ← evaluating fun ctx => Eval.expr ctx e
  let scope ← ofExcept .scope (← get).scopes.current
  let (held, problems) := evaluated.settle name ((scope.get? name).bind (·.unit))
  evaluating fun ctx => Eval.complainAt ctx e.span problems
  keep name held
  return held.value

/-! ## Display and execution -/

variable [ToString ρ]

/-- An expression as it is displayed. -/
def render (e : Expr) : Run π ρ String := evaluating fun ctx => Eval.render ctx e

mutual

/-- Executes a statement. -/
def exec : Stmt → Run π ρ Unit
  | .assign target value _ => do
      tick
      let _ ← assign target.text value
  | .display value => do
      tick
      emit (← render value)
  | .block body _ => do
      tick
      openScope
      thenAlways (execAll body) closeScope

/-- Executes statements up to the first fault. -/
def execAll : List Stmt → Run π ρ Unit
  | [] => pure ()
  | statement :: later => do
      exec statement
      execAll later

end

end Session

end UnitScript
