import UnitScript.Proofs.Table
import UnitScript.Session.Eval

/-!
# Values under other references

A value holds its strings by references.  Replacing every reference by its
image under a function changes nothing that an operation on values decides:
all operations commute with the replacement.  Only the comparison of two
strings asks more of the function, because it compares references.

* `Value.map`, `Variable.map`, `Evaluated.map`, `Table.map`, `Scopes.map` and
  `Context.map` replace the references.
* `Evaluated.negate_map`, `combine_map`, `cast_map` and `settle_map` are the
  operations of the language.
* `Table.map_insert`, `Scopes.lookup?_map` and `Scopes.closeScope_map` are the
  operations on scopes.
* `Value.map_map`, `Table.map_map` and `Scopes.map_map` replace references twice.
-/

namespace UnitScript

variable {ρ σ : Type}

/-! ## Values -/

/-- The value with its reference replaced. -/
def Value.map (f : ρ → σ) : Value ρ → Value σ
  | .nothing => .nothing
  | .integer n => .integer n
  | .real x => .real x
  | .pointer p => .pointer (f p)
  | .boolean b => .boolean b
  | .character c => .character c

/-- The variable with its reference replaced. -/
def Variable.map (f : ρ → σ) (held : Variable ρ) : Variable σ := ⟨held.value.map f, held.unit⟩

/-- The evaluated value with its reference replaced. -/
def Evaluated.map (f : ρ → σ) (evaluated : Evaluated ρ) : Evaluated σ :=
  ⟨evaluated.value.map f, evaluated.quantity⟩

namespace Value

@[simp] theorem number?_map (f : ρ → σ) (v : Value ρ) : (v.map f).number? = v.number? := by
  cases v <;> rfl

@[simp] theorem kind_map (f : ρ → σ) (v : Value ρ) : (v.map f).kind = v.kind := by
  cases v <;> rfl

theorem map_map {τ : Type} (f : ρ → σ) (g : σ → τ) (v : Value ρ) :
    (v.map f).map g = v.map (g ∘ f) := by
  cases v <;> rfl

theorem map_id (v : Value ρ) : v.map id = v := by
  cases v <;> rfl

theorem toReal_map (f : ρ → σ) (v : Value ρ) : (v.map f).toReal = v.toReal := by
  unfold toReal
  rw [number?_map, kind_map]

theorem map_eq_pointer {f : ρ → σ} {v : Value ρ} {t : σ} (h : v.map f = .pointer t) :
    ∃ p, v = .pointer p ∧ f p = t := by
  cases v with
  | pointer p =>
    cases h
    exact ⟨p, rfl, rfl⟩
  | _ => cases h

theorem negate_map (f : ρ → σ) (v : Value ρ) :
    (v.map f).negate = v.negate.map (Value.map f) := by
  cases v with
  | integer n =>
    simp only [Value.map, negate]
    cases Number.checked (-n) <;> rfl
  | _ => rfl

theorem integral?_map (f : ρ → σ) (op : ArithOp) (a b : Value ρ) :
    integral? op (a.map f) (b.map f) = integral? op a b := by
  cases a <;> cases b <;> rfl

theorem arithmetic_map (f : ρ → σ) (op : ArithOp) (a b : Value ρ) :
    arithmetic op (a.map f) (b.map f) = (arithmetic op a b).map (Value.map f) := by
  unfold arithmetic
  rw [integral?_map, toReal_map, toReal_map]
  cases integral? op a b with
  | some n => rfl
  | none => cases a.toReal <;> cases b.toReal <;> rfl

/-- Values are equal under other references, if the references of two strings
are. -/
theorem equals_map [DecidableEq ρ] [DecidableEq σ] {f : ρ → σ} {a b : Value ρ}
    (hf : ∀ p q, a = .pointer p → b = .pointer q → (f p = f q ↔ p = q)) :
    (a.map f).equals (b.map f) = a.equals b := by
  cases a <;> cases b <;> try rfl
  next p q => exact decide_eq_decide.2 (hf p q rfl rfl)

end Value

/-! ## Evaluated values -/

namespace Evaluated

theorem ofValue_map (f : ρ → σ) (v : Value ρ) : ofValue (v.map f) = (ofValue v).map f := by
  unfold ofValue
  rw [Value.number?_map]
  rfl

theorem ofVariable_map (f : ρ → σ) (held : Variable ρ) :
    ofVariable (held.map f) = (ofVariable held).map f := by
  unfold ofVariable Variable.map
  simp only [Value.number?_map]
  rfl

theorem negate_map (f : ρ → σ) (inner : Evaluated ρ) :
    (inner.map f).negate = inner.negate.map (Evaluated.map f) := by
  simp only [negate, Evaluated.map, Value.negate_map]
  cases inner.value.negate <;> rfl

theorem combineQuantities_map (f : ρ → σ) (op : ArithOp) (exponent : Expr)
    (lhs rhs : Evaluated ρ) (a b : Quantity) :
    combineQuantities op exponent (lhs.map f) (rhs.map f) a b =
      (combineQuantities op exponent lhs rhs a b).map fun result => (result.1.map f, result.2) := by
  simp only [combineQuantities, Evaluated.map, Value.arithmetic_map]
  cases Quantity.mismatch? op a b with
  | some problem => rfl
  | none =>
    simp only
    cases (Quantity.combine? op a b exponent).filter (·.carrying) with
    | some q => rfl
    | none => cases Value.arithmetic op lhs.value rhs.value <;> rfl

theorem arithmetic_map (f : ρ → σ) (op : ArithOp) (exponent : Expr) (lhs rhs : Evaluated ρ) :
    arithmetic op exponent (lhs.map f) (rhs.map f) =
      (arithmetic op exponent lhs rhs).map fun result => (result.1.map f, result.2) := by
  have hplain : (do return (ofValue (← Value.arithmetic op (lhs.map f).value (rhs.map f).value), []) :
        Except Value.Mismatch (Evaluated σ × List Problem)) =
      (do return (ofValue (← Value.arithmetic op lhs.value rhs.value), []) :
        Except Value.Mismatch (Evaluated ρ × List Problem)).map
          fun result => (result.1.map f, result.2) := by
    rw [show Value.arithmetic op (lhs.map f).value (rhs.map f).value =
      (Value.arithmetic op lhs.value rhs.value).map (Value.map f) from Value.arithmetic_map f op _ _]
    cases Value.arithmetic op lhs.value rhs.value with
    | error e => rfl
    | ok v => exact congrArg (fun result => Except.ok (result, [])) (ofValue_map f v)
  have hlhs : (lhs.map f).quantity = lhs.quantity := rfl
  have hrhs : (rhs.map f).quantity = rhs.quantity := rfl
  cases hl : lhs.quantity with
  | none =>
    simp only [arithmetic, hlhs, hl]
    exact hplain
  | some a =>
    cases hr : rhs.quantity with
    | none =>
      simp only [arithmetic, hlhs, hrhs, hl, hr]
      exact hplain
    | some b =>
      simp only [arithmetic, hlhs, hrhs, hl, hr]
      exact combineQuantities_map f op exponent lhs rhs a b

/-- Operators give the same under other references, if the references of two
strings are equal only when they were. -/
theorem combine_map [DecidableEq ρ] [DecidableEq σ] {f : ρ → σ} (op : BinaryOp) (exponent : Expr)
    {lhs rhs : Evaluated ρ}
    (hf : ∀ p q, lhs.value = .pointer p → rhs.value = .pointer q → (f p = f q ↔ p = q)) :
    combine op exponent (lhs.map f) (rhs.map f) =
      (combine op exponent lhs rhs).map fun result => (result.1.map f, result.2) := by
  have hequals : (lhs.map f).equals (rhs.map f) = lhs.equals rhs := by
    unfold equals
    rw [show (lhs.map f).value.equals (rhs.map f).value = lhs.value.equals rhs.value from
      Value.equals_map hf]
    rfl
  unfold combine
  cases op with
  | arith op => exact arithmetic_map f op exponent lhs rhs
  | eq =>
    simp only [hequals]
    rfl
  | ne =>
    simp only [hequals]
    rfl

theorem castValue_map (f : ρ → σ) (measure : Measure) (unit : UnitExpr) (bound : Option Binding)
    (inner : Evaluated ρ) :
    (inner.map f).castValue measure unit bound =
      ((inner.castValue measure unit bound).1.map f, (inner.castValue measure unit bound).2) := by
  unfold castValue
  rw [show (inner.map f).value.number? = inner.value.number? from Value.number?_map f _]
  split
  · rfl
  · cases bound <;> rfl

theorem cast_map (f : ρ → σ) (measure : Measure) (unit : UnitExpr) (bound : Option Binding)
    (inner : Evaluated ρ) :
    (inner.map f).cast measure unit bound =
      ((inner.cast measure unit bound).1.map f, (inner.cast measure unit bound).2) := by
  unfold cast
  rw [castValue_map]
  simp only [Value.number?_map]
  rfl

theorem settle_map (f : ρ → σ) (name : String) (previous : Option Binding)
    (evaluated : Evaluated ρ) :
    (evaluated.map f).settle name previous =
      ((evaluated.settle name previous).1.map f, (evaluated.settle name previous).2) := by
  have hquantity : (evaluated.map f).quantity = evaluated.quantity := rfl
  unfold settle
  rw [hquantity]
  cases evaluated.quantity.filter (·.carrying) with
  | some q => rfl
  | none =>
    simp only [Evaluated.map, Value.number?_map]
    rfl

end Evaluated

/-! ## Tables and scopes -/

namespace Table

variable {α β : Type}

/-- The table with its values replaced. -/
def map (g : α → β) (table : Table α) : Table β where
  entries := table.entries.map fun entry => (entry.1, g entry.2)
  ordered := List.pairwise_map.2 table.ordered

theorem map_map {γ : Type} (f : α → β) (g : β → γ) (table : Table α) :
    (table.map f).map g = table.map (g ∘ f) := by
  simp only [map, List.map_map]
  rfl

theorem map_id (table : Table α) : table.map id = table := by
  cases table
  simp only [map, id_eq, List.map_id']

private theorem lookup_map (g : α → β) (key : String) (entries : List (String × α)) :
    (entries.map fun entry => (entry.1, g entry.2)).lookup key =
      (entries.lookup key).map g := by
  induction entries with
  | nil => rfl
  | cons head rest ih =>
    obtain ⟨k, v⟩ := head
    rw [List.map_cons, List.lookup_cons, List.lookup_cons, ih]
    cases key == k <;> rfl

theorem get?_map (g : α → β) (table : Table α) (key : String) :
    (table.map g).get? key = (table.get? key).map g :=
  lookup_map g key table.entries

private theorem map_insertEntry (g : α → β) (key : String) (value : α)
    (entries : List (String × α)) :
    (insertEntry key value entries).map (fun entry => (entry.1, g entry.2)) =
      insertEntry key (g value) (entries.map fun entry => (entry.1, g entry.2)) := by
  induction entries with
  | nil => rfl
  | cons head rest ih =>
    simp only [List.map_cons, insertEntry]
    split
    · rfl
    · split
      · rfl
      · rw [List.map_cons, ih]

theorem map_insert (g : α → β) (table : Table α) (key : String) (value : α) :
    (table.insert key value).map g = (table.map g).insert key (g value) := by
  simp only [map, insert, map_insertEntry]

end Table

namespace Scopes

/-- The scopes with their references replaced. -/
def map (f : ρ → σ) (scopes : Scopes ρ) : Scopes σ :=
  ⟨scopes.levels.map (Table.map (Variable.map f))⟩

theorem map_map {τ : Type} (f : ρ → σ) (g : σ → τ) (scopes : Scopes ρ) :
    (scopes.map f).map g = scopes.map (g ∘ f) := by
  have hheld : Variable.map g ∘ Variable.map f = Variable.map (g ∘ f) := by
    funext held
    simp only [Function.comp_apply, Variable.map, Value.map_map]
  unfold map
  rw [List.map_map, ← hheld]
  congr 1
  exact List.map_congr_left fun scope _ => Table.map_map _ _ scope

theorem map_id (scopes : Scopes ρ) : scopes.map id = scopes := by
  have hheld : Variable.map (id : ρ → ρ) = id := by
    funext held
    simp only [Variable.map, Value.map_id, id_eq]
  unfold map
  rw [hheld]
  congr 1
  exact (List.map_congr_left fun scope _ => scope.map_id).trans (List.map_id _)

theorem lookup?_map (f : ρ → σ) (scopes : Scopes ρ) (name : String) :
    (scopes.map f).lookup? name = (scopes.lookup? name).map (Variable.map f) := by
  unfold lookup? map
  induction scopes.levels with
  | nil => rfl
  | cons scope outer ih =>
    rw [List.map_cons, List.findSome?_cons, List.findSome?_cons, Table.get?_map]
    cases scope.get? name with
    | some held => rfl
    | none => exact ih

theorem closeScope_map (f : ρ → σ) (scopes : Scopes ρ) :
    (scopes.map f).closeScope.2 = scopes.closeScope.2.map f := by
  obtain ⟨_ | ⟨inner, _ | ⟨outer, rest⟩⟩⟩ := scopes <;> rfl

end Scopes

namespace Context

/-- The context with its references replaced. -/
def map (f : ρ → σ) (ctx : Context ρ) : Context σ := ⟨ctx.source, ctx.registry, ctx.scopes.map f⟩

theorem binding?_map (f : ρ → σ) (ctx : Context ρ) (e : Expr) :
    (ctx.map f).binding? e = ctx.binding? e := by
  unfold binding?
  cases e.name? with
  | none => rfl
  | some name =>
    change ((ctx.scopes.map f).lookup? name).bind (·.unit) =
      (ctx.scopes.lookup? name).bind (·.unit)
    rw [Scopes.lookup?_map]
    cases ctx.scopes.lookup? name <;> rfl

theorem label?_map (f : ρ → σ) (ctx : Context ρ) (e : Expr) (evaluated : Evaluated ρ) :
    (ctx.map f).label? e (evaluated.map f) = ctx.label? e evaluated := by
  unfold label?
  cases e.peel with
  | identifier name span => simp only [binding?_map]
  | _ => rfl

end Context

end UnitScript
