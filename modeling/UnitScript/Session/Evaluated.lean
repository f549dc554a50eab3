import UnitScript.Scope
import UnitScript.Session.Quantity
import UnitScript.Value.Arithmetic

/-!
# Values with their quantities

An expression evaluates to a plain value and, where that makes sense, to the
quantity it stands for.  The two are computed side by side: plain numbers keep
integer arithmetic, and whatever has a unit is computed in SI.

* `Evaluated` is the pair; `negate`, `combine` and `cast` are the operations
  of the language on it, with the problems they find.
* `Evaluated.settle` is what an assignment stores.
-/

namespace UnitScript

/-- A value and the quantity it stands for, if there is one. -/
structure Evaluated (ρ : Type) where
  value : Value ρ
  quantity : Option Quantity
deriving DecidableEq

namespace Evaluated

variable {ρ : Type}

/-- A plain value.  A number stands for itself. -/
def ofValue (value : Value ρ) : Evaluated ρ := ⟨value, value.number?.map .plain⟩

/-- The value of a variable, with the quantity of its binding. -/
def ofVariable (held : Variable ρ) : Evaluated ρ where
  value := held.value
  quantity :=
    match held.unit with
    | some binding => some (.ofBinding binding)
    | none => held.value.number?.map .plain

/-- The operand with its sign changed. -/
def negate (inner : Evaluated ρ) : Except Value.Mismatch (Evaluated ρ) := do
  return ⟨← inner.value.negate, inner.quantity.map fun q => { q with si := -q.si }⟩

/-! ## Casts and assignment -/

/-- The value read by a cast to `measure`, which `unit` is written for.  A
variable with a unit, `bound`, is converted from SI; anything else is taken as
already expressed in the unit. -/
def castValue (measure : Measure) (unit : UnitExpr) (bound : Option Binding) (inner : Evaluated ρ) :
    Value ρ × List Problem :=
  if !measure.isValid || inner.value.number?.isNone then (.real Number.notReal, [])
  else
    match bound with
    | some binding =>
        (.real (measure.ofSI binding.si binding.dimension),
          if binding.dimension = measure.dimension then []
          else [.castMismatch binding.dimension unit measure.dimension])
    | none => (inner.value, [])

/-- Casts to `measure`, which `unit` is written for. -/
def cast (measure : Measure) (unit : UnitExpr) (bound : Option Binding) (inner : Evaluated ρ) :
    Evaluated ρ × List Problem :=
  let (value, problems) := inner.castValue measure unit bound
  let quantity :=
    if measure.isValid then
      some ⟨(value.number?.getD Number.notReal) * measure.scale, measure.dimension, true,
        some measure⟩
    else
      none
  (⟨value, quantity⟩, problems)

/-- The variable that an assignment to `name` stores, when `name` had the
binding `previous`, and the problems with it.  A plain number keeps the unit
the variable had. -/
def settle (name : String) (previous : Option Binding) (evaluated : Evaluated ρ) :
    Variable ρ × List Problem :=
  match evaluated.quantity.filter (·.carrying) with
  | some q =>
      let (binding, problems) := q.bind name previous
      (⟨.real binding.displayed, some binding⟩, problems)
  | none =>
      let unit :=
        match previous, evaluated.value.number? with
        | some binding, some n => some { binding with si := n * binding.preferred.scale }
        | some _, none => none
        | none, _ => evaluated.quantity.map fun q => .plain q.si
      (⟨evaluated.value, unit⟩, [])

/-! ## Operators -/

/-- Arithmetic on two operands that stand for the quantities `a` and `b`. -/
def combineQuantities (op : ArithOp) (exponent : Expr) (lhs rhs : Evaluated ρ) (a b : Quantity) :
    Except Value.Mismatch (Evaluated ρ × List Problem) :=
  match Quantity.mismatch? op a b with
  | some problem => .ok (⟨.real Number.notReal, none⟩, [problem])
  | none =>
      let quantity := Quantity.combine? op a b exponent
      match quantity.filter (·.carrying) with
      | some q => .ok (⟨.real q.si, quantity⟩, [])
      | none => do return (⟨← Value.arithmetic op lhs.value rhs.value, quantity⟩, [])

/-- Arithmetic on two operands.  `exponent` is the right one as it is written.
Unless both stand for quantities, the values are combined as they are. -/
def arithmetic (op : ArithOp) (exponent : Expr) (lhs rhs : Evaluated ρ) :
    Except Value.Mismatch (Evaluated ρ × List Problem) :=
  match lhs.quantity, rhs.quantity with
  | some a, some b => combineQuantities op exponent lhs rhs a b
  | _, _ => do return (ofValue (← Value.arithmetic op lhs.value rhs.value), [])

variable [DecidableEq ρ]

/-- Whether two operands are equal.  Quantities with units are compared in SI
up to rounding, all else by value. -/
def equals (lhs rhs : Evaluated ρ) : Bool :=
  match lhs.quantity, rhs.quantity with
  | some a, some b =>
      if a.carrying && b.carrying then a.dimension = b.dimension && Quantity.near a.si b.si
      else lhs.value.equals rhs.value
  | _, _ => lhs.value.equals rhs.value

/-- Applies an operator to two operands.  `exponent` is the right one as it is
written. -/
def combine (op : BinaryOp) (exponent : Expr) (lhs rhs : Evaluated ρ) :
    Except Value.Mismatch (Evaluated ρ × List Problem) :=
  match op with
  | .arith op => arithmetic op exponent lhs rhs
  | .eq => .ok (ofValue (.boolean (lhs.equals rhs)), [])
  | .ne => .ok (ofValue (.boolean !(lhs.equals rhs)), [])

end Evaluated

end UnitScript
