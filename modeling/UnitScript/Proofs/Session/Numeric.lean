import UnitScript.Proofs.Diagnostics
import UnitScript.Proofs.Session.Bindings
import UnitScript.Proofs.Session.Similarity

/-!
# Numbers can always be computed with

Arithmetic stops at a value that is not a number, and at nothing else.  What is
wrong with units and dimensions is logged, and what has no result becomes a
real that is no number.  So an expression that is made of numbers evaluates to
a number in every session.

* `Expr.Numeric` are the expressions made of numbers, with casts to any units.
* `arithmetic_of_isNumeric` and its companions say that the operations of the
  language give numbers for numbers.
* `Eval.Yields` are the computations that have a result and do nothing but
  log; `yields_expr` is the induction over expressions.
* `numeric_expressions_evaluate` is the whole statement.
-/

namespace UnitScript

/-- The expression is made of numbers: literals and the names of variables that
hold numbers, with signs, arithmetic, parentheses, and casts to any units. -/
inductive Expr.Numeric {ρ : Type} (scopes : Scopes ρ) : Expr → Prop
  | integer (n : Int) (span : Span) : Numeric scopes (.literal (.integer n) span)
  | real (x : Float) (span : Span) : Numeric scopes (.literal (.real x) span)
  | identifier {name : String} {held : Variable ρ} (hfound : scopes.lookup? name = some held)
      (hvalue : held.value.isNumeric = true) (span : Span) :
      Numeric scopes (.identifier name span)
  | negate {operand : Expr} (hoperand : Numeric scopes operand) (span : Span) :
      Numeric scopes (.negate operand span)
  | arith (op : ArithOp) {left right : Expr} (hleft : Numeric scopes left)
      (hright : Numeric scopes right) (span : Span) :
      Numeric scopes (.binary (.arith op) left right span)
  | cast {value : Expr} (hvalue : Numeric scopes value) (unit : UnitExpr) (span : Span) :
      Numeric scopes (.cast value unit span)
  | paren {inner : Expr} (hinner : Numeric scopes inner) (span : Span) :
      Numeric scopes (.paren inner span)

/-! ## Operations on numbers -/

variable {ρ : Type}

namespace Value

theorem negate_of_isNumeric {v : Value ρ} (h : v.isNumeric = true) :
    ∃ result, v.negate = .ok result ∧ result.isNumeric = true := by
  obtain ⟨x, hx⟩ := Option.isSome_iff_exists.1 (isNumeric_iff.1 h)
  obtain ⟨result, hresult⟩ := negate_of_number hx
  exact ⟨result, hresult, isNumeric_negate hresult⟩

theorem arithmetic_of_isNumeric (op : ArithOp) {a b : Value ρ} (ha : a.isNumeric = true)
    (hb : b.isNumeric = true) :
    ∃ result, arithmetic op a b = .ok result ∧ result.isNumeric = true := by
  obtain ⟨x, hx⟩ := Option.isSome_iff_exists.1 (isNumeric_iff.1 ha)
  obtain ⟨y, hy⟩ := Option.isSome_iff_exists.1 (isNumeric_iff.1 hb)
  obtain ⟨result, hresult⟩ := arithmetic_of_numbers op hx hy
  exact ⟨result, hresult, isNumeric_arithmetic hresult⟩

end Value

namespace Evaluated

theorem negate_of_isNumeric {inner : Evaluated ρ} (h : inner.value.isNumeric = true) :
    ∃ result, inner.negate = .ok result ∧ result.value.isNumeric = true := by
  obtain ⟨value, hvalue, hnumeric⟩ := Value.negate_of_isNumeric h
  rw [negate, hvalue]
  exact ⟨_, rfl, hnumeric⟩

/-- Quantities may be there or not, and they may fit together or not: the
result is a number in any case. -/
theorem arithmetic_of_isNumeric (op : ArithOp) (exponent : Expr) {lhs rhs : Evaluated ρ}
    (hlhs : lhs.value.isNumeric = true) (hrhs : rhs.value.isNumeric = true) :
    ∃ result problems, arithmetic op exponent lhs rhs = .ok (result, problems) ∧
      result.value.isNumeric = true := by
  obtain ⟨value, hvalue, hnumeric⟩ := Value.arithmetic_of_isNumeric op hlhs hrhs
  unfold arithmetic
  split
  · unfold combineQuantities
    split
    · exact ⟨_, _, rfl, rfl⟩
    · simp only
      split
      · exact ⟨_, _, rfl, rfl⟩
      · rw [hvalue]
        exact ⟨_, _, rfl, hnumeric⟩
  · rw [hvalue]
    exact ⟨_, _, rfl, hnumeric⟩

end Evaluated

/-! ## Computations that have a result -/

namespace Eval

variable {π α β : Type} {source : Source}

/-- Whatever was there before, the computation has a good result, and all it
does is to log complaints. -/
def Yields (source : Source) (good : α → Prop) (m : Eval π α) : Prop :=
  ∀ s, ∃ value complaints, good value ∧
    m s = .ok value { s with log := s.log.complainAll source complaints }

theorem yields_pure {good : α → Prop} {value : α} (h : good value) :
    Yields source good (pure value : Eval π α) :=
  fun _ => ⟨value, [], h, rfl⟩

theorem Yields.bind {m : Eval π α} {next : α → Eval π β} {good : α → Prop} {good' : β → Prop}
    (hm : Yields source good m) (hnext : ∀ value, good value → Yields source good' (next value)) :
    Yields source good' (m >>= next) := by
  intro s
  obtain ⟨value, first, hgood, hresult⟩ := hm s
  obtain ⟨value', later, hgood', hresult'⟩ :=
    hnext value hgood { s with log := s.log.complainAll source first }
  refine ⟨value', first ++ later, hgood', ?_⟩
  rw [bind_of_ok hresult, hresult', Diagnostics.complainAll_append]

theorem yields_complain (ctx : Context ρ) (complaints : List Complaint) :
    Yields ctx.source (fun _ => True) (complain ctx complaints : Eval π Unit) :=
  fun _ => ⟨(), complaints, trivial, rfl⟩

theorem yields_ofExcept {ε : Type} (fault : ε → Fault) {result : Except ε α} {good : α → Prop}
    {value : α} (hresult : result = .ok value) (h : good value) :
    Yields source good (ofExcept fault result : Eval π α) := by
  subst hresult
  exact yields_pure h

variable [StringPool π ρ] [DecidableEq ρ]

theorem yields_binary (ctx : Context ρ) (op : ArithOp) (exponent : Expr) (span : Span)
    {lhs rhs : Evaluated ρ} (hlhs : lhs.value.isNumeric = true)
    (hrhs : rhs.value.isNumeric = true) :
    Yields ctx.source (fun result => result.value.isNumeric = true)
      (binary ctx (.arith op) exponent span lhs rhs : Eval π (Evaluated ρ)) := by
  obtain ⟨result, problems, hresult, hnumeric⟩ :=
    Evaluated.arithmetic_of_isNumeric op exponent hlhs hrhs
  rw [binary_combine ctx exponent span fun a _ _ ha _ => Value.ne_pointer_of_isNumeric hlhs a ha]
  have hcombined : Yields ctx.source (fun combined => combined.1.value.isNumeric = true)
      (ofExcept .value (Evaluated.combine (.arith op) exponent lhs rhs) :
        Eval π (Evaluated ρ × List Problem)) :=
    yields_ofExcept .value hresult hnumeric
  refine hcombined.bind fun combined hcombined => ?_
  exact (yields_complain ctx _).bind fun _ _ => yields_pure hcombined

/-- An expression made of numbers gives a number. -/
theorem yields_expr (ctx : Context ρ) {e : Expr} (h : e.Numeric ctx.scopes) :
    Yields ctx.source (fun result => result.value.isNumeric = true)
      (expr ctx e : Eval π (Evaluated ρ)) := by
  induction h with
  | integer n span => exact fun s => ⟨.ofValue (.integer n), [], rfl, rfl⟩
  | real x span => exact fun s => ⟨.ofValue (.real x), [], rfl, rfl⟩
  | identifier hfound hvalue span =>
    simp only [expr, hfound]
    exact yields_pure hvalue
  | negate hoperand span ih =>
    refine ih.bind fun inner hinner => ?_
    obtain ⟨result, hresult, hnumeric⟩ := Evaluated.negate_of_isNumeric hinner
    exact yields_ofExcept _ hresult hnumeric
  | @arith op left right hleft hright span ihl ihr =>
    refine ihl.bind fun lhs hlhs => ?_
    refine ihr.bind fun rhs hrhs => ?_
    exact yields_binary ctx op right span hlhs hrhs
  | cast hvalue unit span ih =>
    rw [expr_cast]
    refine (yields_complain ctx _).bind fun _ _ => ?_
    refine ih.bind fun inner _ => ?_
    refine (yields_complain ctx _).bind fun _ _ => ?_
    exact yields_pure (Evaluated.isNumeric_castValue _ unit _ inner)
  | paren hinner span ih => exact ih

end Eval

/-! ## Sessions -/

namespace Session

/-- The value of an expression comes from its evaluation in the context of the
session, which only changes the store. -/
theorem evaluate_eq_ok {e : Expr} {session session' : Session Heap Pointer}
    {value : Value Pointer} :
    evaluate e session = .ok value session' ↔
      ∃ result store, Eval.expr session.context e session.store = .ok result store ∧
        result.value = value ∧ { session with store := store } = session' := by
  unfold evaluate
  rw [bind_eq, evaluating]
  cases Eval.expr session.context e session.store with
  | error fault store => simp
  | ok result store =>
    constructor
    · intro h
      cases h
      exact ⟨result, store, rfl, rfl, rfl⟩
    · rintro ⟨_, _, hresult, rfl, rfl⟩
      cases hresult
      rfl

/-- In every session, an expression made of numbers evaluates to a number.
Nothing is changed, apart from what is logged about units and dimensions. -/
theorem numeric_expressions_evaluate (session : Session Heap Pointer) (e : Expr)
    (h : e.Numeric session.scopes) :
    ∃ value complaints,
      evaluate e session = .ok value { session with
        store := { session.store with
          log := session.store.log.complainAll session.source complaints } } ∧
      value.isNumeric = true := by
  obtain ⟨result, complaints, hnumeric, hresult⟩ :=
    Eval.yields_expr session.context h session.store
  exact ⟨result.value, complaints, evaluate_eq_ok.mpr ⟨_, _, hresult, rfl, rfl⟩, hnumeric⟩

/-- A length to an unknown unit with a real exponent, in a difference of
dimensions, divided by zero: with a variable that holds five centimetres, even
this is a number. -/
theorem numeric_expressions_evaluate_hopeless :
    let here : Span := .point ⟨1, 1⟩
    let five : Expr := .cast (.literal (.integer 5) here) (.symbol "cm" here) here
    let session : Session Heap Pointer :=
      (start ⟨"", ""⟩ {} Registry.standard Heap.empty).performAll [.assign "x" five]
    let unit : UnitExpr := .join .pow (.symbol "parsec" here) (.number (.real 1.5) here)
    let x : Expr := .identifier "x" here
    let e : Expr := .join (.arith .div)
      (.paren (.join (.arith .sub) (.join (.arith .pow) x (.literal (.integer 2) here))
        (.cast x unit here)) here)
      (.literal (.integer 0) here)
    e.Numeric session.scopes ∧
      ∃ value complaints,
        evaluate e session = .ok value { session with
          store := { session.store with
            log := session.store.log.complainAll session.source complaints } } ∧
        value.isNumeric = true := by
  intro here five session unit x e
  have hheld : (session.scopes.lookup? "x").map (·.value.isNumeric) = some true := by
    decide +kernel
  obtain ⟨held, hfound, hvalue⟩ := Option.map_eq_some_iff.1 hheld
  have hx : x.Numeric session.scopes := .identifier hfound hvalue here
  have he : e.Numeric session.scopes :=
    .arith .div
      (.paren (.arith .sub (.arith .pow hx (.integer 2 here) _) (.cast hx unit here) _) here)
      (.integer 0 here) _
  exact ⟨he, numeric_expressions_evaluate session e he⟩

end Session

end UnitScript
