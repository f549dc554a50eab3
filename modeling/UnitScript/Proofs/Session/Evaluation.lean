import UnitScript.Proofs.Heap
import UnitScript.Session.Eval

/-!
# Evaluation and the heap

Evaluation makes strings and reads strings, and it never counts references:
whatever an expression does, the heap afterwards accounts for the same
variables as before and still has every string it had.

* `Scopes.contents` lists the variables of all open scopes.
* `Eval.Orderly` is what a computation keeps: the account and the strings, a
  result that is not a dead pointer, and no fault of the heap.  `orderly_pure`
  and `Orderly.bind` compose it.
* `orderly_expr` and `orderly_render` are the results about expressions.
-/

namespace UnitScript

/-- The variables of all open scopes. -/
def Scopes.contents {ρ : Type} (scopes : Scopes ρ) : List (Variable ρ) :=
  scopes.levels.flatMap Table.values

/-- A variable that is found is one of those in the open scopes. -/
theorem Scopes.mem_contents_of_lookup? {ρ : Type} {scopes : Scopes ρ} {name : String}
    {held : Variable ρ} (h : scopes.lookup? name = some held) : held ∈ scopes.contents := by
  obtain ⟨scope, hscope, hget⟩ := List.exists_of_findSome?_eq_some h
  exact List.mem_flatMap.2 ⟨scope, hscope, Table.mem_values_of_get? hget⟩

/-- The pool gives the text of a pointer that is not dead. -/
theorem Heap.poolText_eq_ok {heap : Heap} {p : Pointer} {text : String}
    (h : heap.text? p = some text) :
    (StringPool.text p heap : Except Heap.Error String) = .ok text := by
  change heap.text p = .ok text
  rw [Heap.text, h]

namespace Value

theorem live_of_ne_pointer {heap : Heap} {value : Value Pointer}
    (h : ∀ p, value ≠ .pointer p) : value.Live heap :=
  fun p hp => absurd hp (h p)

variable {ρ : Type}

theorem isNumeric_iff {v : Value ρ} : v.isNumeric = true ↔ v.number?.isSome = true := by
  cases v <;> simp [isNumeric, kind, Kind.isNumeric, number?]

theorem ne_pointer_of_isNumeric {v : Value ρ} (h : v.isNumeric = true) (r : ρ) :
    v ≠ .pointer r := by
  rintro rfl
  cases h

/-- Arithmetic gives numbers. -/
theorem isNumeric_arithmetic {op : ArithOp} {a b result : Value ρ}
    (h : arithmetic op a b = .ok result) : result.isNumeric = true := by
  unfold arithmetic at h
  split at h
  · cases h
    rfl
  · cases ha : a.toReal <;> cases hb : b.toReal <;> rw [ha, hb] at h <;> cases h
    rfl

/-- A change of sign gives a number. -/
theorem isNumeric_negate {a result : Value ρ} (h : a.negate = .ok result) :
    result.isNumeric = true := by
  unfold negate at h
  split at h
  · split at h <;> cases h <;> rfl
  · cases ha : a.toReal <;> rw [ha] at h <;> cases h
    rfl

end Value

namespace Evaluated

variable {ρ : Type}

theorem negate_ne_pointer {inner result : Evaluated ρ} (h : inner.negate = .ok result) (r : ρ) :
    result.value ≠ .pointer r := by
  unfold negate at h
  cases hv : inner.value.negate with
  | error e => rw [hv] at h; cases h
  | ok value =>
    rw [hv] at h
    cases h
    exact Value.ne_pointer_of_isNumeric (Value.isNumeric_negate hv) r

/-- What an operator gives: a value that stands for itself, or what arithmetic
on two quantities gives, with the problem if they cannot be combined. -/
theorem combine_cases [DecidableEq ρ] {op : BinaryOp} {exponent : Expr}
    {lhs rhs result : Evaluated ρ} {problems : List Problem}
    (h : combine op exponent lhs rhs = .ok (result, problems)) :
    (∃ value, (∀ r, value ≠ .pointer r) ∧ result = ofValue value ∧ problems = []) ∨
      ∃ sign a b, lhs.quantity = some a ∧ rhs.quantity = some b ∧
        ((∃ problem, Quantity.mismatch? sign a b = some problem ∧
            result = ⟨.real Number.notReal, none⟩ ∧ problems = [problem]) ∨
          ∃ value, value.isNumeric = true ∧
            result = ⟨value, Quantity.combine? sign a b exponent⟩ ∧ problems = []) := by
  cases op with
  | eq =>
    cases h
    exact .inl ⟨.boolean _, nofun, rfl, rfl⟩
  | ne =>
    cases h
    exact .inl ⟨.boolean _, nofun, rfl, rfl⟩
  | arith sign =>
    simp only [combine, arithmetic] at h
    split at h
    · next a b ha hb =>
        refine .inr ⟨sign, a, b, ha, hb, ?_⟩
        simp only [combineQuantities] at h
        split at h
        · next problem hproblem =>
            cases h
            exact .inl ⟨problem, hproblem, rfl, rfl⟩
        · split at h
          · cases h
            exact .inr ⟨_, rfl, rfl, rfl⟩
          · cases hvalue : Value.arithmetic sign lhs.value rhs.value with
            | error e => rw [hvalue] at h; cases h
            | ok value =>
              rw [hvalue] at h
              cases h
              exact .inr ⟨value, Value.isNumeric_arithmetic hvalue, rfl, rfl⟩
    · cases hvalue : Value.arithmetic sign lhs.value rhs.value with
      | error e => rw [hvalue] at h; cases h
      | ok value =>
        rw [hvalue] at h
        cases h
        have hnumeric := Value.isNumeric_arithmetic hvalue
        exact .inl ⟨value, Value.ne_pointer_of_isNumeric hnumeric, rfl, rfl⟩

/-- Operators do not make pointers.  The sum of two strings is not among
them. -/
theorem combine_ne_pointer [DecidableEq ρ] {op : BinaryOp} {exponent : Expr}
    {lhs rhs result : Evaluated ρ} {problems : List Problem}
    (h : combine op exponent lhs rhs = .ok (result, problems)) (r : ρ) :
    result.value ≠ .pointer r := by
  obtain ⟨value, hvalue, rfl, _⟩ | ⟨_, _, _, _, _, ⟨_, _, rfl, _⟩ | ⟨value, hnumeric, rfl, _⟩⟩ :=
    combine_cases h
  · exact hvalue r
  · exact nofun
  · exact Value.ne_pointer_of_isNumeric hnumeric r

/-- A cast reads a number. -/
theorem cast_ne_pointer (measure : Measure) (unit : UnitExpr) (bound : Option Binding)
    (inner : Evaluated ρ) (r : ρ) : (inner.cast measure unit bound).1.value ≠ .pointer r := by
  have hvalue : (inner.castValue measure unit bound).1 ≠ .pointer r := by
    unfold castValue
    split
    · exact nofun
    · next hnum =>
        split
        · exact nofun
        · intro heq
          have hnone : inner.value.number? = none := by
            rw [show inner.value = .pointer r from heq]
            rfl
          simp [hnone] at hnum
  exact hvalue

end Evaluated

namespace Eval

variable {α β : Type}

theorem bind_of_ok {π : Type} {m : Eval π α} {next : α → Eval π β} {value : α} {s s' : Store π}
    (h : m s = .ok value s') : (m >>= next) s = next value s' := by
  change EStateM.bind m next s = _
  unfold EStateM.bind
  rw [h]

theorem bind_of_error {π : Type} {m : Eval π α} {next : α → Eval π β} {fault : Fault}
    {s s' : Store π} (h : m s = .error fault s') : (m >>= next) s = .error fault s' := by
  change EStateM.bind m next s = _
  unfold EStateM.bind
  rw [h]

/-- After a computation that started with the heap `before`, the heap accounts
for the same variables and has the same strings.  A result satisfies `good`;
a fault does not come from the heap. -/
def Orderly (held : List (Variable Pointer)) (before : Heap) (good : α → Heap → Prop) :
    EStateM.Result Fault (Store Heap) α → Prop
  | .ok value s => s.pool.Accounts held ∧ before.Keeps s.pool ∧ good value s.pool
  | .error fault s =>
      s.pool.Accounts held ∧ before.Keeps s.pool ∧ ∀ error, fault ≠ .heap error

variable {held : List (Variable Pointer)} {s : Store Heap}

theorem orderly_pure {good : α → Heap → Prop} (h : s.pool.Accounts held) {value : α}
    (hgood : good value s.pool) :
    Orderly held s.pool good ((pure value : Eval Heap α) s) :=
  ⟨h, .refl _, hgood⟩

theorem Orderly.bind {m : Eval Heap α} {next : α → Eval Heap β} {good : α → Heap → Prop}
    {good' : β → Heap → Prop} (hm : Orderly held s.pool good (m s))
    (hnext : ∀ value s', s'.pool.Accounts held → s.pool.Keeps s'.pool → good value s'.pool →
      Orderly held s'.pool good' (next value s')) :
    Orderly held s.pool good' ((m >>= next) s) := by
  change Orderly held s.pool good' (EStateM.bind m next s)
  unfold EStateM.bind
  cases hresult : m s with
  | error fault s' =>
    rw [hresult] at hm
    exact hm
  | ok value s' =>
    rw [hresult] at hm
    obtain ⟨haccounts, hkeeps, hgood⟩ := hm
    have hlast := hnext value s' haccounts hkeeps hgood
    simp only
    cases hresult' : next value s' with
    | error fault s'' =>
      rw [hresult'] at hlast
      exact ⟨hlast.1, hkeeps.trans hlast.2.1, hlast.2.2⟩
    | ok value' s'' =>
      rw [hresult'] at hlast
      exact ⟨hlast.1, hkeeps.trans hlast.2.1, hlast.2.2⟩

/-- A value that is not a dead pointer. -/
abbrev LiveValue (result : Evaluated Pointer) (heap : Heap) : Prop := result.value.Live heap

/-! ## The steps of evaluation -/

theorem orderly_complain {ρ : Type} (ctx : Context ρ) (complaints : List Complaint)
    (h : s.pool.Accounts held) :
    Orderly held s.pool (fun _ _ => True) (complain ctx complaints s) :=
  ⟨h, .refl _, trivial⟩

theorem orderly_ofExcept {ε : Type} {fault : ε → Fault} {result : Except ε α}
    {good : α → Heap → Prop} (hfault : ∀ e error, fault e ≠ .heap error)
    (h : s.pool.Accounts held) (hgood : ∀ value, result = .ok value → good value s.pool) :
    Orderly held s.pool good (ofExcept fault result s) := by
  cases result with
  | error e => exact ⟨h, .refl _, hfault e⟩
  | ok value => exact ⟨h, .refl _, hgood value rfl⟩

theorem orderly_intern (text : String) (h : s.pool.Accounts held) :
    Orderly held s.pool (fun p heap => heap.text? p = some text)
      ((intern text : Eval Heap Pointer) s) :=
  Heap.accounts_alloc h text

/-- A pointer that is not dead can be read. -/
theorem text_eq_ok {p : Pointer} {text : String} (h : s.pool.text? p = some text) :
    (Eval.text p : Eval Heap String) s = .ok text s := by
  unfold Eval.text
  rw [Heap.poolText_eq_ok h]

theorem orderly_text {p : Pointer} (h : s.pool.Accounts held) (hp : s.pool.isAlive p = true) :
    Orderly held s.pool (fun _ _ => True) ((Eval.text p : Eval Heap String) s) := by
  obtain ⟨text, htext⟩ := Heap.isAlive_iff_text?.1 hp
  rw [text_eq_ok htext]
  exact ⟨h, .refl _, trivial⟩

theorem live_of_text? {heap : Heap} {p : Pointer} {text : String} (h : heap.text? p = some text) :
    (Value.pointer p).Live heap := by
  intro q hq
  cases hq
  exact Heap.isAlive_iff_text?.2 ⟨text, h⟩

theorem orderly_literal (value : Literal) (h : s.pool.Accounts held) :
    Orderly held s.pool (fun result heap => result.Live heap)
      ((literal value : Eval Heap (Value Pointer)) s) := by
  cases value with
  | string text =>
    refine (orderly_intern text h).bind fun p s' h' _ htext => ?_
    exact orderly_pure h' (live_of_text? htext)
  | _ => exact orderly_pure h (Value.live_of_ne_pointer nofun)

/-- Two strings are added by concatenation. -/
theorem binary_concat {π ρ : Type} [StringPool π ρ] [DecidableEq ρ] (ctx : Context ρ)
    (exponent : Expr) (span : Span) {lhs rhs : Evaluated ρ} {a b : ρ}
    (ha : lhs.value = .pointer a) (hb : rhs.value = .pointer b) :
    (binary ctx (.arith .add) exponent span lhs rhs : Eval π (Evaluated ρ)) = (do
      let front ← Eval.text a
      let back ← Eval.text b
      return .ofValue (.pointer (← intern (front ++ back)))) := by
  unfold binary
  rw [ha, hb]

/-- All other operators are applied to the operands as they are. -/
theorem binary_combine {π ρ : Type} [StringPool π ρ] [DecidableEq ρ] (ctx : Context ρ)
    {op : BinaryOp} (exponent : Expr) (span : Span) {lhs rhs : Evaluated ρ}
    (h : ∀ a b, op = .arith .add → lhs.value = .pointer a → rhs.value ≠ .pointer b) :
    (binary ctx op exponent span lhs rhs : Eval π (Evaluated ρ)) = (do
      let (result, problems) ← ofExcept .value (Evaluated.combine op exponent lhs rhs)
      complainAt ctx span problems
      return result) := by
  unfold binary
  split
  · next a b ha hb => exact absurd hb (h a b rfl ha)
  · rfl

theorem orderly_binary (ctx : Context Pointer) (op : BinaryOp) (exponent : Expr) (span : Span)
    {lhs rhs : Evaluated Pointer} (h : s.pool.Accounts held) (hlhs : lhs.value.Live s.pool)
    (hrhs : rhs.value.Live s.pool) :
    Orderly held s.pool LiveValue
      ((binary ctx op exponent span lhs rhs : Eval Heap (Evaluated Pointer)) s) := by
  by_cases hconcat : ∃ a b, op = .arith .add ∧ lhs.value = .pointer a ∧ rhs.value = .pointer b
  · obtain ⟨a, b, rfl, ha, hb⟩ := hconcat
    rw [binary_concat ctx exponent span ha hb]
    refine (orderly_text h (hlhs a ha)).bind fun front s₁ h₁ hk₁ _ => ?_
    refine (orderly_text h₁ (hk₁.isAlive (hrhs b hb))).bind fun back s₂ h₂ _ _ => ?_
    refine (orderly_intern (front ++ back) h₂).bind fun p s₃ h₃ _ htext => ?_
    exact orderly_pure h₃ (live_of_text? htext)
  · rw [binary_combine ctx exponent span fun a b hop ha hb => hconcat ⟨a, b, hop, ha, hb⟩]
    have hcombined : Orderly held s.pool (fun result heap => LiveValue result.1 heap)
        ((ofExcept .value (Evaluated.combine op exponent lhs rhs) :
          Eval Heap (Evaluated Pointer × List Problem)) s) := by
      refine orderly_ofExcept (fun _ _ => nofun) h fun result hresult => ?_
      exact Value.live_of_ne_pointer (Evaluated.combine_ne_pointer hresult)
    refine hcombined.bind fun result s₁ h₁ _ hlive => ?_
    refine (orderly_complain ctx _ h₁).bind fun _ s₂ h₂ hk₂ _ => ?_
    exact orderly_pure h₂ (hk₂.live hlive)

/-! ## Expressions -/

/-- A cast evaluates its unit, then its value, and logs the problems of both. -/
theorem expr_cast {π ρ : Type} [StringPool π ρ] [DecidableEq ρ] (ctx : Context ρ) (value : Expr)
    (unit : UnitExpr) (span : Span) :
    (expr ctx (.cast value unit span) : Eval π (Evaluated ρ)) = (do
      complain ctx (unit.evaluate ctx.registry).2
      let inner ← expr ctx value
      let result := inner.cast (unit.evaluate ctx.registry).1 unit (ctx.binding? value)
      complainAt ctx span result.2
      return result.1) :=
  rfl

/-- Evaluating an expression leaves the account and the strings as they are,
and gives no dead pointer. -/
theorem orderly_expr (ctx : Context Pointer) (e : Expr) (s : Store Heap)
    (h : s.pool.Accounts ctx.scopes.contents) :
    Orderly ctx.scopes.contents s.pool LiveValue
      ((expr ctx e : Eval Heap (Evaluated Pointer)) s) := by
  induction e generalizing s with
  | literal value span =>
    refine (orderly_literal value h).bind fun result s' h' _ hlive => ?_
    exact orderly_pure h' hlive
  | identifier name span =>
    cases hfound : ctx.scopes.lookup? name with
    | some held =>
      simp only [expr, hfound]
      exact orderly_pure h (h.live held (Scopes.mem_contents_of_lookup? hfound))
    | none =>
      simp only [expr, hfound]
      exact ⟨h, .refl _, fun _ => nofun⟩
  | negate operand span ih =>
    refine (ih s h).bind fun inner s' h' _ _ => ?_
    refine orderly_ofExcept (fun _ _ => nofun) h' fun result hresult => ?_
    exact Value.live_of_ne_pointer (Evaluated.negate_ne_pointer hresult)
  | binary op left right span ihl ihr =>
    refine (ihl s h).bind fun lhs s₁ h₁ _ hlhs => ?_
    refine (ihr s₁ h₁).bind fun rhs s₂ h₂ hk₂ hrhs => ?_
    exact orderly_binary ctx op right span h₂ (hk₂.live hlhs) hrhs
  | cast value unit span ih =>
    rw [expr_cast]
    refine (orderly_complain ctx _ h).bind fun _ s₁ h₁ _ _ => ?_
    refine (ih s₁ h₁).bind fun inner s₂ h₂ _ _ => ?_
    refine (orderly_complain ctx _ h₂).bind fun _ s₃ h₃ _ _ => ?_
    exact orderly_pure h₃ (Value.live_of_ne_pointer (Evaluated.cast_ne_pointer _ _ _ _))
  | paren inner span ih => exact ih s h

/-- Formatting an expression leaves the account and the strings as they are. -/
theorem orderly_render (ctx : Context Pointer) (e : Expr) (s : Store Heap)
    (h : s.pool.Accounts ctx.scopes.contents) :
    Orderly ctx.scopes.contents s.pool (fun _ _ => True)
      ((render ctx e : Eval Heap String) s) := by
  refine (orderly_expr ctx e s h).bind fun result s' h' _ hlive => ?_
  cases hvalue : result.value with
  | pointer p => exact orderly_text h' (hlive p hvalue)
  | _ => cases ctx.label? e result <;> exact orderly_pure h' trivial

end Eval

end UnitScript
