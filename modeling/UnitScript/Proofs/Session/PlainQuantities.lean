import UnitScript.Outcome.Basic
import UnitScript.Proofs.Number.Signs
import UnitScript.Proofs.Session.Integers

/-!
# Plain integers and their quantities

An expression of integers is computed twice: its value in integers, and the
quantity it stands for in reals.  The quantity is not made from the value, so
its operands are rounded before the operators are applied and not only at the
end.  Where all operands of operators are reals, this makes no difference.

* `Expr.inReals` is what is computed in reals, and `quantity_of_integral` says
  that this is the quantity.
* `roundsTo_inReals` compares it with the exact value.
* `plain_integers_agree` is the whole statement, with what an assignment stores
  and how it is read again.  `rounded_operand_disagrees` is an expression with
  an operand that is not a real.
-/

namespace UnitScript

/-! ## Expressions in reals -/

namespace Expr

/-- The value of an expression of integers when all is computed in reals. -/
def inReals : Expr → Float
  | .literal (.integer n) _ => Float.ofInt n
  | .negate operand _ => -operand.inReals
  | .binary (.arith op) left right _ => Value.onReals op left.inReals right.inReals
  | .paren inner _ => inner.inReals
  | _ => 0.0

/-- The operands of the operators in an expression. -/
def operands : Expr → List Expr
  | .literal .. => []
  | .identifier .. => []
  | .negate operand _ => operand.operands
  | .binary _ left right _ => left :: right :: (left.operands ++ right.operands)
  | .cast value _ _ => value.operands
  | .paren inner _ => inner.operands

theorem exponents_arith_eq_nil_iff {op : ArithOp} {left right : Expr} {span : Span} :
    (binary (.arith op) left right span).exponents = [] ↔
      left.exponents = [] ∧ right.exponents = [] ∧ op ≠ .pow := by
  have hhere : (if BinaryOp.arith op = .arith .pow then [right] else []) = [] ↔ op ≠ .pow := by
    cases op <;> simp
  rw [exponents, List.append_eq_nil_iff, List.append_eq_nil_iff, and_assoc, hhere]

/-- If all operands of operators are reals, then the exact value is rounded only
once, at the end. -/
theorem roundsTo_inReals {e : Expr} (h : e.Integral) (hpowers : e.exponents = [])
    (hoperands : ∀ operand ∈ e.operands, Number.Representable |operand.exact|) :
    Number.RoundsTo e.exact e.inReals := by
  induction h with
  | @literal n hnonneg hle span => exact Number.roundsTo_ofInt n
  | negate hoperand span ih => exact (ih hpowers hoperands).neg
  | @arith op hop left right hleft hright span ihl ihr =>
    obtain ⟨hpowers, hpowers', hpow⟩ := exponents_arith_eq_nil_iff.1 hpowers
    obtain ⟨ha, hrest⟩ := List.forall_mem_cons.1 hoperands
    obtain ⟨hb, hinner⟩ := List.forall_mem_cons.1 hrest
    obtain ⟨hinner, hinner'⟩ := List.forall_mem_append.1 hinner
    have hl := ihl hpowers hinner
    have hr := ihr hpowers' hinner'
    cases op with
    | add => exact hl.add hr ha hb
    | sub => exact hl.sub hr ha hb
    | mul => exact hl.mul hr ha hb
    | div => exact absurd rfl hop
    | pow => exact absurd rfl hpow
  | paren hinner span ih => exact ih hpowers hoperands

end Expr

/-! ## Quantities of plain numbers -/

/-- Operators on plain numbers are those on reals. -/
theorem Quantity.combine?_plain {op : ArithOp} (h : op ≠ .pow) (a b : Float) (exponent : Expr) :
    combine? op (.plain a) (.plain b) exponent = some (.plain (Value.onReals op a b)) := by
  cases op with
  | add | sub | mul | div => rfl
  | pow => exact absurd rfl h

namespace Evaluated

variable {ρ : Type}

theorem quantity_negate {inner result : Evaluated ρ} {a : Float}
    (h : inner.quantity = some (.plain a)) (hresult : inner.negate = .ok result) :
    result.quantity = some (.plain (-a)) := by
  unfold negate at hresult
  rw [h] at hresult
  cases hvalue : inner.value.negate with
  | error mismatch =>
    rw [hvalue] at hresult
    cases hresult
  | ok value =>
    rw [hvalue] at hresult
    cases hresult
    rfl

theorem quantity_arithmetic {op : ArithOp} (hop : op ≠ .pow) {exponent : Expr}
    {lhs rhs result : Evaluated ρ} {problems : List Problem} {a b : Float}
    (hlhs : lhs.quantity = some (.plain a)) (hrhs : rhs.quantity = some (.plain b))
    (hresult : arithmetic op exponent lhs rhs = .ok (result, problems)) :
    result.quantity = some (.plain (Value.onReals op a b)) := by
  have hmismatch : Quantity.mismatch? op (.plain a) (.plain b) = none := rfl
  have hplain : (some (Quantity.plain (Value.onReals op a b))).filter (·.carrying) = none := rfl
  simp only [arithmetic, hlhs, hrhs, combineQuantities, hmismatch,
    Quantity.combine?_plain hop a b exponent, hplain] at hresult
  cases hvalue : Value.arithmetic op lhs.value rhs.value with
  | error mismatch =>
    rw [hvalue] at hresult
    cases hresult
  | ok value =>
    rw [hvalue] at hresult
    cases hresult
    rfl

end Evaluated

namespace Eval

variable {π ρ : Type} [StringPool π ρ] [DecidableEq ρ]

/-- The quantity of an expression of integers is computed in reals. -/
theorem quantity_of_integral (ctx : Context ρ) {e : Expr} (h : e.Integral)
    (hpowers : e.exponents = []) {s s' : Store π} {result : Evaluated ρ}
    (hresult : expr ctx e s = .ok result s') : result.quantity = some (.plain e.inReals) := by
  induction h generalizing result s' with
  | literal hnonneg hle span =>
    cases hresult
    rfl
  | negate hoperand span ih =>
    obtain ⟨inner, hinner, -⟩ := expr_of_integral ctx hoperand s
    rw [expr, bind_of_ok hinner] at hresult
    cases hnegate : inner.negate with
    | error mismatch =>
      rw [hnegate] at hresult
      cases hresult
    | ok opposite =>
      rw [hnegate] at hresult
      cases hresult
      exact Evaluated.quantity_negate (ih hpowers hinner) hnegate
  | @arith op hop left right hleft hright span ihl ihr =>
    obtain ⟨hpowers, hpowers', hpow⟩ := Expr.exponents_arith_eq_nil_iff.1 hpowers
    obtain ⟨lhs, hlhs, -, hgives⟩ := expr_of_integral ctx hleft s
    obtain ⟨rhs, hrhs, -⟩ := expr_of_integral ctx hright s
    rw [expr, bind_of_ok hlhs, bind_of_ok hrhs, binary_combine ctx right span fun a _ _ ha _ =>
      Value.ne_pointer_of_isNumeric hgives.isNumeric a ha, Evaluated.combine] at hresult
    cases harith : Evaluated.arithmetic op right lhs rhs with
    | error mismatch =>
      rw [harith] at hresult
      cases hresult
    | ok combined =>
      rw [harith] at hresult
      cases hresult
      exact Evaluated.quantity_arithmetic hpow (ihl hpowers hlhs) (ihr hpowers' hrhs) harith
  | paren hinner span ih => exact ih hpowers hresult

end Eval

/-! ## Reading a plain number -/

/-- The number one is the unit of plain numbers. -/
theorem UnitExpr.evaluate_one (registry : Registry) (span : Span) :
    evaluate registry (.number (.integer 1) span) = (.one, []) := by
  have hplain : (Measure.one.isValid && !Measure.one.isPlain) = false := by decide
  simp only [evaluate, reduce, hplain]
  rfl

namespace Eval

variable {π ρ : Type} [StringPool π ρ] [DecidableEq ρ] {ctx : Context ρ} {name : String}
  {held : Variable ρ}

theorem expr_identifier (h : ctx.scopes.lookup? name = some held) (span : Span) (s : Store π) :
    expr ctx (.identifier name span) s = .ok (.ofVariable held) s := by
  simp only [expr, h]
  rfl

/-- A variable that holds a plain number is read in the unit one as the number of its
binding. -/
theorem expr_in_one {x si : Float} (h : ctx.scopes.lookup? name = some held)
    (hvalue : held.value.number? = some x) (hunit : held.unit = some (.plain si)) (s₁ s₂ s₃ : Span)
    (s : Store π) :
    ∃ result, expr ctx (.cast (.identifier name s₁) (.number (.integer 1) s₂) s₃) s =
      .ok result s ∧ result.value = .real (si / 1.0) := by
  have hbinding : ctx.binding? (.identifier name s₁) = some (.plain si) := by
    change (ctx.scopes.lookup? name).bind (·.unit) = _
    rw [h, Option.bind_some, hunit]
  have hcast : (Evaluated.ofVariable held).castValue .one (.number (.integer 1) s₂)
      (some (.plain si)) = (.real (si / 1.0), []) := by
    have hvalid : Measure.one.isValid = true := by decide
    simp only [Evaluated.castValue, Evaluated.ofVariable, hvalid, hvalue]
    rfl
  refine ⟨(Evaluated.cast .one (.number (.integer 1) s₂) (some (.plain si)) (.ofVariable held)).1,
    ?_, ?_⟩
  · have hclean : (complain ctx [] : Eval π Unit) s = .ok () s := rfl
    rw [expr_cast, UnitExpr.evaluate_one, bind_of_ok hclean,
      bind_of_ok (expr_identifier h s₁ s), hbinding]
    simp only [Evaluated.cast, hcast]
    rfl
  · simp only [Evaluated.cast, hcast]

end Eval

namespace Session

/-- Assigning a plain number to a name that is new in its scope only stores it there. -/
theorem assign_fresh {session : Session Heap Pointer} {scope : Scope Pointer}
    {outer : List (Scope Pointer)} {name : String} {e : Expr} {n : Int} {si : Float}
    (hlevels : session.scopes.levels = scope :: outer) (hfresh : scope.get? name = none)
    (hexpr : Eval.expr session.context e session.store =
      .ok ⟨.integer n, some (.plain si)⟩ session.store) :
    assign name e session = .ok (.integer n) { session with
      scopes := ⟨scope.insert name ⟨.integer n, some (.plain si)⟩ :: outer⟩ } := by
  have hdeclare : declare name ⟨.integer n, some (.plain si)⟩ session = .ok none { session with
      scopes := ⟨scope.insert name ⟨.integer n, some (.plain si)⟩ :: outer⟩ } := by
    simp only [declare, Scopes.declare, hlevels, hfresh]
  -- an integer is no string, so there is nothing to retain or to release
  have hkeep : keep name ⟨.integer n, some (.plain si)⟩ session = .ok () { session with
      scopes := ⟨scope.insert name ⟨.integer n, some (.plain si)⟩ :: outer⟩ } := by
    change (declare name ⟨.integer n, some (.plain si)⟩ >>= _) session = _
    rw [bind_eq, hdeclare]
    rfl
  rw [assign_eq session name e hlevels, hexpr]
  simp only [hfresh, Option.bind_none]
  change (keep name ⟨.integer n, some (.plain si)⟩ >>= _) session = _
  rw [bind_eq, hkeep]
  rfl

/-- An expression of integers that gives an integer gives the exact one, with what is
computed in reals as its quantity. -/
theorem expr_of_evaluate {session reached : Session Heap Pointer} {e : Expr} {n : Int}
    (h : e.Integral) (hpowers : e.exponents = [])
    (hvalue : evaluate e session = .ok (.integer n) reached) :
    Eval.expr session.context e session.store =
      .ok ⟨.integer n, some (.plain e.inReals)⟩ session.store ∧ (n : ℚ) = e.exact := by
  obtain ⟨result, hresult, -, hgives⟩ :=
    Eval.expr_of_integral session.context h session.store
  obtain ⟨_, _, hresult', hinteger, -⟩ := evaluate_eq_ok.1 hvalue
  rw [hresult] at hresult'
  cases hresult'
  obtain ⟨value, found⟩ := result
  obtain rfl : found = _ := Eval.quantity_of_integral session.context h hpowers hresult
  obtain rfl : value = _ := hinteger
  refine ⟨hresult, ?_⟩
  obtain ⟨-, _, heq, hexact⟩ | ⟨-, x, heq⟩ := hgives
  · cases heq
    exact hexact
  · cases heq

/-- Let an expression of integers without powers give the integer `n`.  The quantity it
stands for is a plain number, and it is computed in reals.  If all operands of the
operators are reals, then it is `n`, correctly rounded.  In this case, an assignment to a
new variable stores a binding with the number of the value, and the variable is read in
the unit one as that number. -/
theorem plain_integers_agree (session : Session Heap Pointer) {e : Expr} (h : e.Integral)
    (hpowers : e.exponents = []) {n : Int} {reached : Session Heap Pointer}
    (hvalue : evaluate e session = .ok (.integer n) reached) :
    quantity e session = .ok (some ⟨e.inReals, .dimensionless, false, none⟩) session ∧
      ((∀ operand ∈ e.operands, Number.Representable |operand.exact|) →
        Number.RoundsTo n e.inReals ∧ (e.inReals == Float.ofInt n) = true ∧
        ∀ scope outer name, session.scopes.levels = scope :: outer → scope.get? name = none →
          ∃ after, assign name e session = .ok (.integer n) after ∧
            after.scopes.lookup? name = some ⟨.integer n, some (.plain e.inReals)⟩ ∧
            ∀ s₁ s₂ s₃, evaluate (.identifier name s₁) after = .ok (.integer n) after ∧
              evaluate (.cast (.identifier name s₁) (.number (.integer 1) s₂) s₃) after =
                .ok (.real e.inReals) after) := by
  obtain ⟨hexpr, hexact⟩ := expr_of_evaluate h hpowers hvalue
  refine ⟨?_, fun hoperands => ?_⟩
  · unfold quantity
    rw [bind_eq, evaluating, hexpr]
    rfl
  have hrounds := Expr.roundsTo_inReals h hpowers hoperands
  rw [← hexact] at hrounds
  refine ⟨hrounds, hrounds.beq (Number.roundsTo_ofInt n), fun scope outer name hlevels hfresh => ?_⟩
  let held : Variable Pointer := ⟨.integer n, some (.plain e.inReals)⟩
  let after : Session Heap Pointer :=
    { session with scopes := ⟨scope.insert name held :: outer⟩ }
  have hlookup : after.context.scopes.lookup? name = some held := by
    change Scopes.lookup? ⟨scope.insert name held :: outer⟩ name = _
    rw [Scopes.lookup?, List.findSome?_cons, Table.get?_insert, if_pos rfl]
  refine ⟨after, assign_fresh hlevels hfresh hexpr, hlookup, fun s₁ s₂ s₃ => ⟨?_, ?_⟩⟩
  · exact evaluate_eq_ok.2 ⟨_, _, Eval.expr_identifier hlookup s₁ after.store, rfl, rfl⟩
  · obtain ⟨result, hresult, hreal⟩ := Eval.expr_in_one hlookup rfl rfl s₁ s₂ s₃ after.store
    rw [hrounds.div_one_eq_self] at hreal
    exact evaluate_eq_ok.2 ⟨_, _, hresult, hreal, rfl⟩

/-- The product has 55 binary digits, and it is rounded only once. -/
theorem plain_integers_agree_product :
    let here : Span := .point .origin
    let session : Session Heap Pointer := start ⟨"", ""⟩ {} Registry.standard Heap.empty
    let e : Expr := .negate (.paren (.binary (.arith .mul)
      (.literal (.integer 9007199254740991) here) (.literal (.integer 3) here) here) here) here
    evaluate e session = .ok (.integer (-27021597764222973)) session ∧
      quantity e session = .ok (some ⟨e.inReals, .dimensionless, false, none⟩) session ∧
      (e.inReals == Float.ofInt (-27021597764222973)) = true ∧
      ∃ after, assign "x" e session = .ok (.integer (-27021597764222973)) after ∧
        evaluate (.cast (.identifier "x" here) (.number (.integer 1) here) here) after =
          .ok (.real e.inReals) after := by
  intro here session e
  have hintegral : e.Integral :=
    .negate (.paren (.arith (show ArithOp.mul ≠ .div by decide)
      (.literal (by norm_num) (by norm_num) here) (.literal (by norm_num) (by norm_num) here)
      here) here) here
  have hvalue : evaluate e session = .ok (.integer (-27021597764222973)) session := rfl
  have hoperands : ∀ operand ∈ e.operands, Number.Representable |operand.exact| := by
    refine List.forall_mem_cons.2 ⟨⟨9007199254740991, 0, ?_⟩, List.forall_mem_cons.2
      ⟨⟨3, 0, ?_⟩, nofun⟩⟩ <;> norm_num [Expr.exact]
  obtain ⟨hquantity, hagree⟩ := plain_integers_agree session hintegral rfl hvalue
  obtain ⟨-, hequal, hassign⟩ := hagree hoperands
  obtain ⟨after, hstored, -, hread⟩ := hassign ∅ [] "x" rfl rfl
  exact ⟨hvalue, hquantity, hequal, after, hstored, (hread here here here).2⟩

/-- A number of 54 binary digits is rounded before one is added to it.  The sum is a
real, and yet it is not the quantity: the new variable has another number in its binding
than as its value. -/
theorem rounded_operand_disagrees :
    let here : Span := .point .origin
    let session : Session Heap Pointer := start ⟨"", ""⟩ {} Registry.standard Heap.empty
    let e : Expr := .binary (.arith .add)
      (.literal (.integer 9007199254740993) here) (.literal (.integer 1) here) here
    (e.Integral ∧ e.exponents = [] ∧
      evaluate e session = .ok (.integer 9007199254740994) session ∧
      ∃ si, quantity e session = .ok (some ⟨si, .dimensionless, false, none⟩) session ∧
        (si == Float.ofInt 9007199254740994) = false) ∧
    (⟨"", "x = 9007199254740993 + 1\nx\nx[1]"⟩ : Source).run {} =
      ⟨"", true, ["9007199254740994", "9007199254740992"], ∅, [⟨"x", "9007199254740994", none⟩],
        none, 3⟩ := by
  intro here session e
  have hintegral : e.Integral :=
    .arith (show ArithOp.add ≠ .div by decide) (.literal (by norm_num) (by norm_num) here)
      (.literal (by norm_num) (by norm_num) here) here
  exact ⟨⟨hintegral, rfl, rfl, Float.ofInt 9007199254740993 + Float.ofInt 1, rfl,
    by decide +kernel⟩, by decide +kernel⟩

end Session

end UnitScript
