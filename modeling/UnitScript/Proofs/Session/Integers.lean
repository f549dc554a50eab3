import Mathlib.Data.Rat.Floor
import Mathlib.Tactic.NormNum
import UnitScript.Proofs.Session.Numeric

/-!
# Integer arithmetic is exact or visibly real

Script integers are words of 64 bits, but no result is ever wrapped or held at
an end of the range.  An expression of integers gives an integer as long as all
that is computed on the way stays in range, and this is then the exact result.
Otherwise it gives a real, and what is computed from a real is a real again.

* `Expr.exact` is the exact value, as a rational number because of powers with
  negative exponents.  `Expr.Fits` says that nothing leaves the range.
* `checkedPower_eq` says that powers are not cut short by the test that avoids
  large ones, and `exactResult?_cases` when an operator gives an integer.
* `Expr.Gives` relates an expression to its value; `gives_negate` and
  `gives_arith` are the steps, `expr_of_integral` is the induction.
* `integers_exact_or_real` is the whole statement.
-/

namespace UnitScript

/-! ## Exact values -/

/-- The exact result of an operator.  Exponents are taken as whole numbers. -/
def ArithOp.exact (op : ArithOp) (a b : ℚ) : ℚ :=
  match op with
  | .add => a + b
  | .sub => a - b
  | .mul => a * b
  | .div => a / b
  | .pow => a ^ ⌊b⌋

/-- The number is in the range of script integers. -/
def Number.Fits (q : ℚ) : Prop := -2 ^ 63 ≤ q ∧ q ≤ 2 ^ 63 - 1

/-- The number is an exponent of 32 bits. -/
def Number.FitsExponent (q : ℚ) : Prop := 0 ≤ q ∧ q ≤ 2 ^ 32 - 1

/-- The exact result of the operator is in range, and so is the exponent if it
is a power. -/
def ArithOp.Fits (op : ArithOp) (a b : ℚ) : Prop :=
  (op = .pow → Number.FitsExponent b) ∧ Number.Fits (op.exact a b)

namespace Expr

/-- The expression is made of integer literals, with signs, parentheses and
all operators but division. -/
inductive Integral : Expr → Prop
  | literal {n : Int} (hnonneg : 0 ≤ n) (hle : n ≤ 2 ^ 63 - 1) (span : Span) :
      Integral (.literal (.integer n) span)
  | negate {operand : Expr} (hoperand : Integral operand) (span : Span) :
      Integral (.negate operand span)
  | arith {op : ArithOp} (hop : op ≠ .div) {left right : Expr} (hleft : Integral left)
      (hright : Integral right) (span : Span) : Integral (.binary (.arith op) left right span)
  | paren {inner : Expr} (hinner : Integral inner) (span : Span) : Integral (.paren inner span)

/-- The exact value of an expression of integers. -/
def exact : Expr → ℚ
  | .literal (.integer n) _ => n
  | .negate operand _ => -operand.exact
  | .binary (.arith op) left right _ => op.exact left.exact right.exact
  | .paren inner _ => inner.exact
  | _ => 0

/-- The expression and those inside it. -/
def parts : Expr → List Expr
  | .literal value span => [.literal value span]
  | .identifier name span => [.identifier name span]
  | .negate operand span => .negate operand span :: operand.parts
  | .binary op left right span => .binary op left right span :: (left.parts ++ right.parts)
  | .cast value unit span => .cast value unit span :: value.parts
  | .paren inner span => .paren inner span :: inner.parts

/-- The exponents in an expression. -/
def exponents : Expr → List Expr
  | .literal .. => []
  | .identifier .. => []
  | .negate operand _ => operand.exponents
  | .binary op left right _ =>
      left.exponents ++ right.exponents ++ (if op = .arith .pow then [right] else [])
  | .cast value _ _ => value.exponents
  | .paren inner _ => inner.exponents

/-- The exact values of all parts are in the range of script integers, and all
exponents are whole numbers of 32 bits. -/
structure Fits (e : Expr) : Prop where
  parts : ∀ part ∈ e.parts, Number.Fits part.exact
  exponents : ∀ exponent ∈ e.exponents, Number.FitsExponent exponent.exact

theorem fits_literal_iff {n : Int} {span : Span} :
    (literal (.integer n) span).Fits ↔ Number.Fits n := by
  constructor
  · intro h
    exact h.parts _ List.mem_cons_self
  · intro h
    exact ⟨List.forall_mem_singleton.2 h, fun _ hmem => absurd hmem List.not_mem_nil⟩

theorem fits_negate_iff {operand : Expr} {span : Span} :
    (negate operand span).Fits ↔ operand.Fits ∧ Number.Fits (-operand.exact) := by
  constructor
  · rintro ⟨hparts, hexponents⟩
    obtain ⟨hself, hinner⟩ := List.forall_mem_cons.1 hparts
    exact ⟨⟨hinner, hexponents⟩, hself⟩
  · rintro ⟨⟨hparts, hexponents⟩, hself⟩
    exact ⟨List.forall_mem_cons.2 ⟨hself, hparts⟩, hexponents⟩

theorem fits_paren_iff {inner : Expr} {span : Span} : (paren inner span).Fits ↔ inner.Fits := by
  constructor
  · rintro ⟨hparts, hexponents⟩
    exact ⟨(List.forall_mem_cons.1 hparts).2, hexponents⟩
  · rintro ⟨hparts, hexponents⟩
    have hself : Number.Fits inner.exact := by
      apply hparts
      cases inner <;> exact List.mem_cons_self
    exact ⟨List.forall_mem_cons.2 ⟨hself, hparts⟩, hexponents⟩

theorem fits_arith_iff {op : ArithOp} {left right : Expr} {span : Span} :
    (binary (.arith op) left right span).Fits ↔
      left.Fits ∧ right.Fits ∧ op.Fits left.exact right.exact := by
  constructor
  · rintro ⟨hparts, hexponents⟩
    obtain ⟨hself, hoperands⟩ := List.forall_mem_cons.1 hparts
    obtain ⟨hleft, hright⟩ := List.forall_mem_append.1 hoperands
    obtain ⟨hinner, hhere⟩ := List.forall_mem_append.1 hexponents
    obtain ⟨hleft', hright'⟩ := List.forall_mem_append.1 hinner
    refine ⟨⟨hleft, hleft'⟩, ⟨hright, hright'⟩, ?_, hself⟩
    rintro rfl
    exact hhere right List.mem_cons_self
  · rintro ⟨⟨hleft, hleft'⟩, ⟨hright, hright'⟩, hhere, hself⟩
    refine ⟨List.forall_mem_cons.2 ⟨hself, List.forall_mem_append.2 ⟨hleft, hright⟩⟩, ?_⟩
    refine List.forall_mem_append.2 ⟨List.forall_mem_append.2 ⟨hleft', hright'⟩, ?_⟩
    intro exponent hmem
    split at hmem
    · next hpow =>
        cases hpow
        cases List.mem_singleton.1 hmem
        exact hhere rfl
    · exact absurd hmem List.not_mem_nil

end Expr

/-! ## Integers in range -/

namespace Number

theorem inRange_iff (n : Int) : inRange n = true ↔ Fits n := by
  have hends : -2 ^ 63 = (least : ℚ) ∧ 2 ^ 63 - 1 = (greatest : ℚ) := by
    unfold least greatest
    norm_num
  unfold inRange Fits
  rw [decide_eq_true_iff, hends.1, hends.2, Int.cast_le, Int.cast_le]

/-- A whole number is kept as it is, or not at all. -/
theorem checked_cases (n : Int) :
    (Fits n ∧ checked n = some n) ∨ (¬ Fits n ∧ checked n = none) := by
  unfold checked
  by_cases h : inRange n = true
  · exact .inl ⟨(inRange_iff n).1 h, if_pos h⟩
  · exact .inr ⟨fun hfits => h ((inRange_iff n).2 hfits), if_neg h⟩

theorem checked_eq_none {n : Int} (h : 2 ^ 64 ≤ n.natAbs) : checked n = none := by
  refine if_neg fun hrange => ?_
  have hbounds := of_decide_eq_true hrange
  unfold least greatest at hbounds
  omega

theorem checked_of_natAbs_le {n : Int} (h : n.natAbs ≤ 1) : checked n = some n := by
  refine if_pos (decide_eq_true ?_)
  unfold least greatest
  omega

/-- A power is computed exactly and then kept if it is in range: what is not
computed at all is out of range. -/
theorem checkedPower_eq (base : Int) (exponent : Nat) :
    checkedPower base exponent = checked (base ^ exponent) := by
  unfold checkedPower
  split
  · next hsmall =>
      have hvalue : base ^ exponent =
          if exponent = 0 then 1 else if exponent % 2 = 1 then base else base * base := by
        obtain rfl | rfl | rfl : base = -1 ∨ base = 0 ∨ base = 1 := by omega
        · split
          · next hzero => rw [hzero, pow_zero]
          · split
            · next hodd => exact Odd.neg_one_pow (Nat.odd_iff.2 hodd)
            · next heven => exact Even.neg_one_pow (Nat.even_iff.2 (by omega))
        · split
          · next hzero => rw [hzero, pow_zero]
          · next hzero =>
              rw [zero_pow hzero]
              split <;> rfl
        · rw [one_pow]
          split <;> [rfl; split <;> rfl]
      have hbound : (base ^ exponent).natAbs ≤ 1 := by
        rw [Int.natAbs_pow]
        exact (Nat.pow_le_pow_left hsmall exponent).trans (Nat.one_pow exponent).le
      rw [← hvalue, checked_of_natAbs_le hbound]
  · next hlarge =>
      split
      · rfl
      · next hmany =>
          refine (checked_eq_none ?_).symm
          calc 2 ^ 64 ≤ 2 ^ exponent := Nat.pow_le_pow_right two_pos (by omega)
            _ ≤ base.natAbs ^ exponent := Nat.pow_le_pow_left (by omega) exponent
            _ = (base ^ exponent).natAbs := (Int.natAbs_pow base exponent).symm

end Number

/-! ## Operators -/

namespace Value

/-- An exponent of 32 bits is used as it is. -/
theorem exact_pow (a : Int) {b : Int} (h : 0 ≤ b) :
    ArithOp.exact .pow a b = ((a ^ b.toNat : Int) : ℚ) := by
  have hfloor : ⌊(b : ℚ)⌋ = (b.toNat : Int) := by rw [Int.floor_intCast, Int.toNat_of_nonneg h]
  rw [ArithOp.exact, hfloor, zpow_natCast, Int.cast_pow]

/-- A result that is checked is the exact one, or there is none because that is
out of range. -/
theorem exactResult?_of_checked {op : ArithOp} {a b n : Int}
    (hexponent : op = .pow → Number.FitsExponent b) (hexact : op.exact a b = n)
    (hresult : exactResult? op a b = Number.checked n) :
    (op.Fits a b ∧ ∃ n, exactResult? op a b = some n ∧ (n : ℚ) = op.exact a b) ∨
      (¬ op.Fits a b ∧ exactResult? op a b = none) := by
  unfold ArithOp.Fits
  rw [hexact, hresult]
  rcases Number.checked_cases n with ⟨hfits, heq⟩ | ⟨hfits, heq⟩
  · exact .inl ⟨⟨hexponent, hfits⟩, n, heq, rfl⟩
  · exact .inr ⟨fun h => hfits h.2, heq⟩

/-- Two integers give an integer when the exact result is one in range, and an
exponent, if there is one, has 32 bits. -/
theorem exactResult?_cases {op : ArithOp} (hop : op ≠ .div) (a b : Int) :
    (op.Fits a b ∧ ∃ n, exactResult? op a b = some n ∧ (n : ℚ) = op.exact a b) ∨
      (¬ op.Fits a b ∧ exactResult? op a b = none) := by
  cases op with
  | add => exact exactResult?_of_checked nofun (Int.cast_add a b).symm rfl
  | sub => exact exactResult?_of_checked nofun (Int.cast_sub a b).symm rfl
  | mul => exact exactResult?_of_checked nofun (Int.cast_mul a b).symm rfl
  | div => exact absurd rfl hop
  | pow =>
    have hends : Number.FitsExponent b ↔ 0 ≤ b ∧ b < 4294967296 := by
      rw [Number.FitsExponent, show (2 : ℚ) ^ 32 - 1 = (4294967295 : Int) by norm_num,
        Int.cast_nonneg_iff, Int.cast_le]
      omega
    by_cases hexponent : 0 ≤ b ∧ b < 4294967296
    · refine exactResult?_of_checked (fun _ => hends.2 hexponent) (exact_pow a hexponent.1) ?_
      rw [exactResult?, if_pos hexponent, Number.checkedPower_eq]
    · exact .inr ⟨fun h => hexponent (hends.1 (h.1 rfl)), if_neg hexponent⟩

variable {ρ : Type}

/-- What is computed from a real is a real. -/
theorem arithmetic_of_integral?_eq_none (op : ArithOp) {a b : Value ρ}
    (h : integral? op a b = none) (ha : a.isNumeric = true) (hb : b.isNumeric = true) :
    ∃ x, arithmetic op a b = .ok (.real x) := by
  obtain ⟨x, hx⟩ := Option.isSome_iff_exists.1 (isNumeric_iff.1 ha)
  obtain ⟨y, hy⟩ := Option.isSome_iff_exists.1 (isNumeric_iff.1 hb)
  rw [arithmetic, h, toReal_of_number hx, toReal_of_number hy]
  exact ⟨_, rfl⟩

end Value

/-! ## Expressions and their values -/

namespace Expr

variable {ρ : Type}

/-- The value is the exact one if everything fits, and a real otherwise. -/
def Gives (e : Expr) (value : Value ρ) : Prop :=
  (e.Fits ∧ ∃ n : Int, value = .integer n ∧ (n : ℚ) = e.exact) ∨
    (¬ e.Fits ∧ ∃ x, value = .real x)

theorem Gives.isNumeric {e : Expr} {value : Value ρ} (h : e.Gives value) :
    value.isNumeric = true := by
  obtain ⟨_, n, rfl, _⟩ | ⟨_, x, rfl⟩ := h
  · rfl
  · rfl

theorem gives_literal {n : Int} (h : Number.Fits n) (span : Span) :
    (literal (.integer n) span).Gives (.integer n : Value ρ) :=
  .inl ⟨fits_literal_iff.2 h, n, rfl, rfl⟩

theorem gives_paren {inner : Expr} {value : Value ρ} (h : inner.Gives value) (span : Span) :
    (paren inner span).Gives value :=
  h.imp (fun h => ⟨fits_paren_iff.2 h.1, h.2⟩) fun h => ⟨fun h' => h.1 (fits_paren_iff.1 h'), h.2⟩

/-- The least integer has no opposite in range. -/
theorem gives_negate {operand : Expr} {value : Value ρ} (h : operand.Gives value) (span : Span) :
    ∃ result, value.negate = .ok result ∧ (negate operand span).Gives result := by
  obtain ⟨hfits, n, rfl, hexact⟩ | ⟨hfits, x, rfl⟩ := h
  · have hopposite : ((-n : Int) : ℚ) = -operand.exact := by rw [Int.cast_neg, hexact]
    rcases Number.checked_cases (-n) with ⟨hrange, heq⟩ | ⟨hrange, heq⟩
    · rw [hopposite] at hrange
      rw [Value.negate, heq]
      exact ⟨_, rfl, .inl ⟨fits_negate_iff.2 ⟨hfits, hrange⟩, -n, rfl, hopposite⟩⟩
    · rw [hopposite] at hrange
      rw [Value.negate, heq]
      exact ⟨_, rfl, .inr ⟨fun h => hrange (fits_negate_iff.1 h).2, _, rfl⟩⟩
  · exact ⟨.real (-x), rfl, .inr ⟨fun h => hfits (fits_negate_iff.1 h).1, _, rfl⟩⟩

theorem gives_arith {op : ArithOp} (hop : op ≠ .div) {left right : Expr} {a b : Value ρ}
    (hleft : left.Gives a) (hright : right.Gives b) (span : Span) :
    ∃ result, Value.arithmetic op a b = .ok result ∧
      (binary (.arith op) left right span).Gives result := by
  -- without an integer result there is a real one, and then something does not fit
  have hreal (hnone : Value.integral? op a b = none)
      (hfits : ¬ (binary (.arith op) left right span).Fits) :
      ∃ result, Value.arithmetic op a b = .ok result ∧
        (binary (.arith op) left right span).Gives result := by
    obtain ⟨x, hx⟩ :=
      Value.arithmetic_of_integral?_eq_none op hnone hleft.isNumeric hright.isNumeric
    exact ⟨_, hx, .inr ⟨hfits, x, rfl⟩⟩
  obtain ⟨hfits, m, rfl, hm⟩ | ⟨hfits, x, rfl⟩ := hleft
  · obtain ⟨hfits', n, rfl, hn⟩ | ⟨hfits', y, rfl⟩ := hright
    · have hcases := Value.exactResult?_cases hop m n
      rw [hm, hn] at hcases
      obtain ⟨hin, k, hk, hexact⟩ | ⟨hout, hnone⟩ := hcases
      · refine ⟨.integer k, ?_, .inl ⟨fits_arith_iff.2 ⟨hfits, hfits', hin⟩, k, rfl, hexact⟩⟩
        rw [Value.arithmetic, Value.integral?, hk]
      · exact hreal hnone fun h => hout (fits_arith_iff.1 h).2.2
    · exact hreal rfl fun h => hfits' (fits_arith_iff.1 h).2.1
  · exact hreal rfl fun h => hfits (fits_arith_iff.1 h).1

end Expr

/-! ## Without units -/

/-- An operator carries a unit only if one of its operands does. -/
theorem Quantity.carrying_combine? {op : ArithOp} {a b q : Quantity} {exponent : Expr}
    (h : combine? op a b exponent = some q) : q.carrying = (a.carrying || b.carrying) := by
  cases op with
  | add | sub =>
    simp only [combine?] at h
    split at h <;> cases h
    rfl
  | mul | div =>
    cases h
    rfl
  | pow =>
    simp only [combine?, power?] at h
    split at h
    · split at h
      · split at h <;> cases h
        rfl
      · split at h <;> cases h
        rfl
    · cases h

namespace Evaluated

variable {ρ : Type}

/-- The value has no unit. -/
def Plain (evaluated : Evaluated ρ) : Prop :=
  ∀ q, evaluated.quantity = some q → q.carrying = false

theorem plain_ofValue (value : Value ρ) : (ofValue value).Plain := by
  intro q hq
  obtain ⟨x, _, rfl⟩ := Option.map_eq_some_iff.1 hq
  rfl

theorem negate_of_plain {inner : Evaluated ρ} (h : inner.Plain) {value : Value ρ}
    (hvalue : inner.value.negate = .ok value) :
    ∃ result, inner.negate = .ok result ∧ result.value = value ∧ result.Plain := by
  rw [negate, hvalue]
  refine ⟨_, rfl, rfl, fun q hq => ?_⟩
  obtain ⟨q', hq', rfl⟩ := Option.map_eq_some_iff.1 hq
  exact h q' hq'

/-- Without units, arithmetic is that of plain values, and nothing is wrong
with it. -/
theorem arithmetic_of_plain {op : ArithOp} (exponent : Expr) {lhs rhs : Evaluated ρ}
    (hlhs : lhs.Plain) (hrhs : rhs.Plain) {value : Value ρ}
    (hvalue : Value.arithmetic op lhs.value rhs.value = .ok value) :
    ∃ result, arithmetic op exponent lhs rhs = .ok (result, []) ∧ result.value = value ∧
      result.Plain := by
  unfold arithmetic
  split
  · next a b ha hb =>
      have hmismatch : Quantity.mismatch? op a b = none := by
        unfold Quantity.mismatch?
        rw [hlhs a ha]
        rfl
      have hplain (q : Quantity) (hq : Quantity.combine? op a b exponent = some q) :
          q.carrying = false := by
        rw [Quantity.carrying_combine? hq, hlhs a ha, hrhs b hb]
        rfl
      have hfilter : (Quantity.combine? op a b exponent).filter (·.carrying) = none := by
        refine Option.filter_eq_none_iff.2 fun q hq => ?_
        rw [hplain q hq]
        exact Bool.false_ne_true
      simp only [combineQuantities, hmismatch, hfilter, hvalue]
      exact ⟨_, rfl, rfl, hplain⟩
  · rw [hvalue]
    exact ⟨_, rfl, rfl, plain_ofValue value⟩

end Evaluated

/-! ## Evaluation -/

namespace Eval

variable {π ρ : Type} [StringPool π ρ] [DecidableEq ρ]

/-- An expression of integers is evaluated without any effect. -/
theorem expr_of_integral (ctx : Context ρ) {e : Expr} (h : e.Integral) (s : Store π) :
    ∃ result, expr ctx e s = .ok result s ∧ result.Plain ∧ e.Gives result.value := by
  induction h with
  | @literal n hnonneg hle span =>
    have hfits : Number.Fits n := by
      refine (Number.inRange_iff n).1 (decide_eq_true ?_)
      unfold Number.least Number.greatest
      omega
    exact ⟨.ofValue (.integer n), rfl, Evaluated.plain_ofValue _, Expr.gives_literal hfits span⟩
  | negate hoperand span ih =>
    obtain ⟨inner, hinner, hplain, hgives⟩ := ih
    obtain ⟨value, hvalue, hgives'⟩ := Expr.gives_negate hgives span
    obtain ⟨result, hresult, rfl, hplain'⟩ := Evaluated.negate_of_plain hplain hvalue
    refine ⟨result, ?_, hplain', hgives'⟩
    rw [expr, bind_of_ok hinner, hresult]
    rfl
  | @arith op hop left right hleft hright span ihl ihr =>
    obtain ⟨lhs, hlhs, hplain, hgives⟩ := ihl
    obtain ⟨rhs, hrhs, hplain', hgives'⟩ := ihr
    obtain ⟨value, hvalue, hresult⟩ := Expr.gives_arith hop hgives hgives' span
    obtain ⟨result, harith, rfl, hplain''⟩ :=
      Evaluated.arithmetic_of_plain right hplain hplain' hvalue
    refine ⟨result, ?_, hplain'', hresult⟩
    rw [expr, bind_of_ok hlhs, bind_of_ok hrhs, binary_combine ctx right span fun a _ _ ha _ =>
      Value.ne_pointer_of_isNumeric hgives.isNumeric a ha, Evaluated.combine, harith]
    rfl
  | paren hinner span ih =>
    obtain ⟨result, hresult, hplain, hgives⟩ := ih
    exact ⟨result, hresult, hplain, Expr.gives_paren hgives span⟩

end Eval

namespace Session

/-- In every session, an expression of integers has a value, and evaluating it
changes nothing.  The value is an integer exactly if the exact values of all
parts are in the range of script integers and all exponents have 32 bits; then
it is the exact value of the expression.  In all other cases it is a real. -/
theorem integers_exact_or_real (session : Session Heap Pointer) (e : Expr) (h : e.Integral) :
    ∃ value, evaluate e session = .ok value session ∧
      ((∃ n, value = .integer n) ↔
        (∀ part ∈ e.parts, -2 ^ 63 ≤ part.exact ∧ part.exact ≤ 2 ^ 63 - 1) ∧
          ∀ exponent ∈ e.exponents, 0 ≤ exponent.exact ∧ exponent.exact ≤ 2 ^ 32 - 1) ∧
      (∀ n, value = .integer n → (n : ℚ) = e.exact) ∧
      ((∀ n, value ≠ .integer n) → ∃ x, value = .real x) := by
  obtain ⟨result, hresult, -, hgives⟩ := Eval.expr_of_integral session.context h session.store
  refine ⟨result.value, evaluate_eq_ok.mpr ⟨_, _, hresult, rfl, rfl⟩, ?_⟩
  obtain ⟨hfits, n, hvalue, hexact⟩ | ⟨hfits, x, hvalue⟩ := hgives
  · rw [hvalue]
    refine ⟨⟨fun _ => ⟨hfits.parts, hfits.exponents⟩, fun _ => ⟨n, rfl⟩⟩, ?_, ?_⟩
    · intro k hk
      cases hk
      exact hexact
    · intro hreal
      exact absurd rfl (hreal n)
  · rw [hvalue]
    refine ⟨⟨?_, fun h => absurd ⟨h.1, h.2⟩ hfits⟩, nofun, fun _ => ⟨x, rfl⟩⟩
    rintro ⟨n, hn⟩
    cases hn

/-- Minus two to the 63rd power is the least integer, and its opposite is a
real. -/
theorem integers_exact_or_real_least :
    let here : Span := .point ⟨1, 1⟩
    let session : Session Heap Pointer := start ⟨"", ""⟩ {} Registry.standard Heap.empty
    let least : Expr := .join (.arith .pow)
      (.paren (.negate (.literal (.integer 2) here) here) here) (.literal (.integer 63) here)
    least.Integral ∧ evaluate least session = .ok (.integer (-2 ^ 63)) session ∧
      ∃ x, evaluate (.negate least here) session = .ok (.real x) session := by
  intro here session least
  have hleast : least.Integral :=
    .arith (show ArithOp.pow ≠ .div by decide)
      (.paren (.negate (.literal (by norm_num) (by norm_num) here) here) here)
      (.literal (by norm_num) (by norm_num) here) _
  have hexact : least.exact = ((-2 ^ 63 : Int) : ℚ) := by
    change ((-(2 : Int) : ℚ) ^ ⌊((63 : Int) : ℚ)⌋) = _
    rw [Int.floor_intCast]
    norm_num
  refine ⟨hleast, ?_, ?_⟩
  · have hfits : least.Fits := by
      refine Expr.fits_arith_iff.2 ⟨Expr.fits_paren_iff.2 (Expr.fits_negate_iff.2 ⟨?_, ?_⟩), ?_, ?_⟩
      · exact Expr.fits_literal_iff.2 (by norm_num [Number.Fits])
      · norm_num [Number.Fits, Expr.exact]
      · exact Expr.fits_literal_iff.2 (by norm_num [Number.Fits])
      · refine ⟨fun _ => by norm_num [Number.FitsExponent, Expr.exact], ?_⟩
        change Number.Fits least.exact
        rw [hexact]
        norm_num [Number.Fits]
    obtain ⟨value, hvalue, hiff, hvalues, -⟩ := integers_exact_or_real session least hleast
    obtain ⟨n, rfl⟩ := hiff.2 ⟨hfits.parts, hfits.exponents⟩
    have hn : n = -2 ^ 63 := Int.cast_injective ((hvalues n rfl).trans hexact)
    rw [hvalue, hn]
  · obtain ⟨value, hvalue, hiff, -, hreal⟩ :=
      integers_exact_or_real session (.negate least here) (.negate hleast here)
    obtain ⟨x, rfl⟩ := hreal fun n hn => by
      have hopposite : (-least.exact : ℚ) ≤ 2 ^ 63 - 1 :=
        ((hiff.1 ⟨n, hn⟩).1 _ List.mem_cons_self).2
      rw [hexact] at hopposite
      norm_num at hopposite
    exact ⟨x, hvalue⟩

end Session

end UnitScript
