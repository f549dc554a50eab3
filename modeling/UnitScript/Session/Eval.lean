import UnitScript.Session.Evaluated
import UnitScript.StringPool
import UnitScript.UnitExpr.Evaluation

/-!
# Evaluating expressions

Evaluation reads the variables and the units of a session and changes only
what is in a `Store`: strings are put into the pool, and problems are logged.
It yields a value with its quantity, or stops with a `Fault`; the store keeps
what happened up to there.

* `Fault` is why a run stops.
* `Eval.expr` evaluates an expression, `Eval.render` formats it for display.
-/

namespace UnitScript

/-- Why a run stops. -/
inductive Fault where
  | heap (error : Heap.Error)
  | scope (error : Scopes.Error)
  | value (error : Value.Mismatch)
  | undefinedVariable (name : String)
  | stepLimit (limit : Nat)
deriving DecidableEq

namespace Fault

/-- The wording of a fault. -/
def message : Fault → String
  | .heap error => error.message
  | .scope error => error.message
  | .value error => error.message
  | .undefinedVariable name => "undefined variable '" ++ name ++ "'"
  | .stepLimit limit => "step limit of " ++ toString limit ++ " exhausted"

end Fault

/-- What evaluation can change: the strings and the log. -/
structure Store (π : Type) where
  pool : π
  log : Diagnostics

/-- What evaluation reads: the source for the log, the units and the
variables. -/
structure Context (ρ : Type) where
  source : Source
  registry : Registry
  scopes : Scopes ρ

/-- A computation that can stop with a fault and keeps its store then. -/
abbrev Eval (π α : Type) := EStateM Fault (Store π) α

namespace Context

variable {ρ : Type}

/-- The binding of the variable that an expression consists of. -/
def binding? (ctx : Context ρ) (e : Expr) : Option Binding := do
  let name ← e.name?
  let held ← ctx.scopes.lookup? name
  held.unit

/-- The unit text that an expression is displayed with: that of the variable
it consists of, or that of the cast it ends in. -/
def label? (ctx : Context ρ) (e : Expr) (evaluated : Evaluated ρ) : Option String :=
  match e.peel with
  | .identifier .. => (ctx.binding? e).bind (·.label)
  | .cast .. => (evaluated.quantity.bind (·.cast)).bind (·.label)
  | _ => none

end Context

namespace Eval

variable {π ρ α : Type}

/-- Goes on with a result, or stops with the fault that `fault` makes of an
error. -/
def ofExcept {ε : Type} (fault : ε → Fault) : Except ε α → Eval π α
  | .ok value => fun s => .ok value s
  | .error error => fun s => .error (fault error) s

/-- Logs complaints. -/
def complain (ctx : Context ρ) (complaints : List Complaint) : Eval π Unit := fun s =>
  .ok () { s with log := s.log.complainAll ctx.source complaints }

/-- Logs problems at `span`. -/
def complainAt (ctx : Context ρ) (span : Span) (problems : List Problem) : Eval π Unit :=
  complain ctx (problems.map (⟨·, span⟩))

variable [StringPool π ρ]

/-- The reference of a text. -/
def intern (text : String) : Eval π ρ := fun s =>
  let (r, pool) := StringPool.intern text s.pool
  .ok r { s with pool := pool }

/-- The text of a reference. -/
def text (r : ρ) : Eval π String := fun s =>
  match StringPool.text r s.pool with
  | .ok text => .ok text s
  | .error error => .error (.heap error) s

/-- The value of a literal. -/
def literal : Literal → Eval π (Value ρ)
  | .integer n => pure (.integer n)
  | .real x => pure (.real x)
  | .string s => return .pointer (← intern s)
  | .character c => pure (.character c)
  | .boolean b => pure (.boolean b)
  | .none => pure .nothing

/-- Applies an operator to two operands.  The sum of two strings is their
concatenation; `exponent` is the right operand as it is written. -/
def binary [DecidableEq ρ] (ctx : Context ρ) (op : BinaryOp) (exponent : Expr) (span : Span)
    (lhs rhs : Evaluated ρ) : Eval π (Evaluated ρ) :=
  match op, lhs.value, rhs.value with
  | .arith .add, .pointer a, .pointer b => do
      let front ← text a
      let back ← text b
      return .ofValue (.pointer (← intern (front ++ back)))
  | op, _, _ => do
      let (result, problems) ← ofExcept .value (Evaluated.combine op exponent lhs rhs)
      complainAt ctx span problems
      return result

/-- Evaluates an expression.  The unit of a cast is evaluated before its
value. -/
def expr [DecidableEq ρ] (ctx : Context ρ) : Expr → Eval π (Evaluated ρ)
  | .literal value _ => return .ofValue (← literal value)
  | .identifier name _ =>
      match ctx.scopes.lookup? name with
      | some held => pure (.ofVariable held)
      | none => throw (.undefinedVariable name)
  | .negate operand _ => do
      let inner ← expr ctx operand
      ofExcept .value inner.negate
  | .binary op left right span => do
      let lhs ← expr ctx left
      let rhs ← expr ctx right
      binary ctx op right span lhs rhs
  | .cast value unit span => do
      let (measure, complaints) := unit.evaluate ctx.registry
      complain ctx complaints
      let inner ← expr ctx value
      let (result, problems) := inner.cast measure unit (ctx.binding? value)
      complainAt ctx span problems
      return result
  | .paren inner _ => expr ctx inner

/-- Evaluates an expression and formats it for display: a string by its
content, all else by its value with the unit behind it. -/
def render [DecidableEq ρ] [ToString ρ] (ctx : Context ρ) (e : Expr) : Eval π String := do
  let evaluated ← expr ctx e
  match evaluated.value with
  | .pointer r => text r
  | value =>
      match ctx.label? e evaluated with
      | some label => return value.text ++ " " ++ label
      | none => return value.text

end Eval

end UnitScript
