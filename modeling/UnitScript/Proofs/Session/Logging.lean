import UnitScript.Proofs.Occurrences
import UnitScript.Proofs.Session.Bindings
import UnitScript.Proofs.Session.UnitErrors

/-!
# What evaluation logs

What an expression can complain about is read off the expression: what is wrong
with its units, and sums, differences and casts of the wrong dimension, each at
the span of its own part.  The log that was there before has no effect on any of
it.

* `complaint_span_reduce` says that a unit is complained about at one of its parts.
* `Expr.MayLog` is what an expression can complain about.
* `Eval.Logs` are the computations that log nothing but allowed complaints;
  `logs_expr` and `logs_render` say that evaluation logs what it may.
-/

namespace UnitScript

/-! ## Units -/

namespace UnitExpr

theorem mem_parts_left {op : UnitOp} {left right part : UnitExpr} {span : Span}
    (h : part ∈ left.parts) : part ∈ (binary op left right span).parts :=
  List.mem_cons_of_mem _ (List.mem_append_left _ h)

theorem mem_parts_right {op : UnitOp} {left right part : UnitExpr} {span : Span}
    (h : part ∈ right.parts) : part ∈ (binary op left right span).parts :=
  List.mem_cons_of_mem _ (List.mem_append_right _ h)

theorem complaint_span_exponent {e : UnitExpr} {c : Complaint} (h : e.exponent = .error c) :
    c.span = e.span := by
  unfold exponent at h
  split at h
  · split at h <;> cases h
    rfl
  · cases h
    rfl
  · cases h
    rfl

/-- What is wrong with a unit is wrong with one of its parts. -/
theorem complaint_span_reduce (registry : Registry) (e : UnitExpr) :
    ∀ c ∈ (e.reduce registry).2, ∃ part ∈ e.parts, c.span = part.span := by
  fun_induction reduce registry e with
  | case1 => exact fun _ hc => absurd hc List.not_mem_nil
  | case2 name span =>
    exact List.forall_mem_singleton.2 ⟨.symbol name span, mem_parts_self _, rfl⟩
  | case3 => exact fun _ hc => absurd hc List.not_mem_nil
  | case4 value span =>
    exact List.forall_mem_singleton.2 ⟨.number value span, mem_parts_self _, rfl⟩
  | case5 inner span ih =>
    intro c hc
    obtain ⟨part, hpart, hspan⟩ := ih c hc
    exact ⟨part, List.mem_cons_of_mem _ hpart, hspan⟩
  | case6 left right span _ first hleft _ later hright ihl ihr
  | case7 left right span _ first hleft _ later hright ihl ihr =>
    rw [hleft] at ihl
    rw [hright] at ihr
    intro c hc
    rcases List.mem_append.1 hc with hc | hc
    · obtain ⟨part, hpart, hspan⟩ := ihl c hc
      exact ⟨part, mem_parts_left hpart, hspan⟩
    · obtain ⟨part, hpart, hspan⟩ := ihr c hc
      exact ⟨part, mem_parts_right hpart, hspan⟩
  | case8 left right span _ first hleft _ _ ihl =>
    rw [hleft] at ihl
    intro c hc
    obtain ⟨part, hpart, hspan⟩ := ihl c hc
    exact ⟨part, mem_parts_left hpart, hspan⟩
  | case9 left right span _ first hleft wrong hwrong ihl =>
    rw [hleft] at ihl
    intro c hc
    rcases List.mem_append.1 hc with hc | hc
    · obtain ⟨part, hpart, hspan⟩ := ihl c hc
      exact ⟨part, mem_parts_left hpart, hspan⟩
    · cases List.mem_singleton.1 hc
      exact ⟨right, mem_parts_right right.mem_parts_self, complaint_span_exponent hwrong⟩

theorem complaint_span_evaluate (registry : Registry) (e : UnitExpr) :
    ∀ c ∈ (e.evaluate registry).2, ∃ part ∈ e.parts, c.span = part.span := by
  rw [e.complaints_evaluate registry]
  exact e.complaint_span_reduce registry

end UnitExpr

/-! ## Expressions -/

/-- The expression can complain about this, whatever the values in it are. -/
def Expr.MayLog (registry : Registry) (c : Complaint) : Expr → Prop
  | .literal .. => False
  | .identifier .. => False
  | .negate operand _ => operand.MayLog registry c
  | .binary _ left right span =>
      left.MayLog registry c ∨ right.MayLog registry c ∨
        c.span = span ∧ ∃ a b, c.problem = .sumMismatch a b ∨ c.problem = .differenceMismatch a b
  | .cast value unit span =>
      c ∈ (unit.evaluate registry).2 ∨ value.MayLog registry c ∨
        c.span = span ∧ ∃ held wanted, c.problem = .castMismatch held unit wanted
  | .paren inner _ => inner.MayLog registry c

namespace Eval

variable {π ρ α β : Type} {source : Source} {allowed allowed' : Complaint → Prop}

/-- Whatever was logged before, the computation ends in the same way and logs
the same complaints, all of which are allowed. -/
def Logs (source : Source) (allowed : Complaint → Prop) (m : Eval π α) : Prop :=
  ∀ pool, ∃ complaints : List Complaint,
    (∀ c ∈ complaints, allowed c) ∧
    ((∃ value pool', ∀ log, m ⟨pool, log⟩ =
        .ok value ⟨pool', log.complainAll source complaints⟩) ∨
      ∃ fault pool', ∀ log, m ⟨pool, log⟩ =
        .error fault ⟨pool', log.complainAll source complaints⟩)

theorem Logs.mono {m : Eval π α} (h : Logs source allowed m)
    (hmono : ∀ c, allowed c → allowed' c) : Logs source allowed' m := by
  intro pool
  obtain ⟨complaints, hallowed, hresult⟩ := h pool
  exact ⟨complaints, fun c hc => hmono c (hallowed c hc), hresult⟩

theorem logs_pure (value : α) : Logs source allowed (pure value : Eval π α) :=
  fun pool => ⟨[], fun _ hc => absurd hc List.not_mem_nil, .inl ⟨value, pool, fun _ => rfl⟩⟩

theorem logs_throw (fault : Fault) : Logs source allowed (throw fault : Eval π α) :=
  fun pool => ⟨[], fun _ hc => absurd hc List.not_mem_nil, .inr ⟨fault, pool, fun _ => rfl⟩⟩

theorem Logs.bind {m : Eval π α} {next : α → Eval π β} (hm : Logs source allowed m)
    (hnext : ∀ value, Logs source allowed (next value)) : Logs source allowed (m >>= next) := by
  intro pool
  obtain ⟨first, hfirst, ⟨value, pool₁, hok⟩ | ⟨fault, pool₁, herror⟩⟩ := hm pool
  · obtain ⟨later, hlater, hresult⟩ := hnext value pool₁
    refine ⟨first ++ later, ?_, ?_⟩
    · intro c hc
      exact (List.mem_append.1 hc).elim (hfirst c) (hlater c)
    · simp only [bind_of_ok (hok _), Diagnostics.complainAll_append]
      rcases hresult with ⟨value', pool₂, hok'⟩ | ⟨fault, pool₂, herror⟩
      · exact .inl ⟨value', pool₂, fun log => hok' _⟩
      · exact .inr ⟨fault, pool₂, fun log => herror _⟩
  · exact ⟨first, hfirst, .inr ⟨fault, pool₁, fun log => bind_of_error (herror log)⟩⟩

theorem logs_ofExcept {ε : Type} (fault : ε → Fault) (result : Except ε α) :
    Logs source allowed (ofExcept fault result : Eval π α) := by
  cases result with
  | ok value => exact logs_pure value
  | error e => exact logs_throw (fault e)

theorem logs_complain (ctx : Context ρ) {complaints : List Complaint}
    (h : ∀ c ∈ complaints, allowed c) :
    Logs ctx.source allowed (complain ctx complaints : Eval π Unit) :=
  fun pool => ⟨complaints, h, .inl ⟨(), pool, fun _ => rfl⟩⟩

theorem logs_complainAt (ctx : Context ρ) (span : Span) {problems : List Problem}
    (h : ∀ problem ∈ problems, allowed ⟨problem, span⟩) :
    Logs ctx.source allowed (complainAt ctx span problems : Eval π Unit) := by
  refine logs_complain ctx fun c hc => ?_
  obtain ⟨problem, hproblem, rfl⟩ := List.mem_map.1 hc
  exact h problem hproblem

variable [StringPool π ρ]

theorem logs_intern (text : String) : Logs source allowed (intern text : Eval π ρ) :=
  fun pool => ⟨[], fun _ hc => absurd hc List.not_mem_nil,
    .inl ⟨(StringPool.intern text pool).1, (StringPool.intern text pool).2, fun _ => rfl⟩⟩

theorem logs_text (r : ρ) : Logs source allowed (Eval.text r : Eval π String) := by
  intro pool
  refine ⟨[], fun _ hc => absurd hc List.not_mem_nil, ?_⟩
  unfold Eval.text
  simp only
  cases StringPool.text r pool with
  | ok text => exact .inl ⟨text, pool, fun _ => rfl⟩
  | error error => exact .inr ⟨.heap error, pool, fun _ => rfl⟩

theorem logs_literal (value : Literal) :
    Logs source allowed (literal value : Eval π (Value ρ)) := by
  cases value with
  | string text => exact (logs_intern text).bind fun r => logs_pure _
  | _ => exact logs_pure _

variable [DecidableEq ρ]

theorem logs_binary (ctx : Context ρ) (op : BinaryOp) (exponent : Expr) (span : Span)
    (lhs rhs : Evaluated ρ) :
    Logs ctx.source
      (fun c => c.span = span ∧
        ∃ a b, c.problem = .sumMismatch a b ∨ c.problem = .differenceMismatch a b)
      (binary ctx op exponent span lhs rhs : Eval π (Evaluated ρ)) := by
  by_cases hconcat : ∃ a b, op = .arith .add ∧ lhs.value = .pointer a ∧ rhs.value = .pointer b
  · obtain ⟨a, b, rfl, ha, hb⟩ := hconcat
    rw [binary_concat ctx exponent span ha hb]
    refine (logs_text a).bind fun front => (logs_text b).bind fun back => ?_
    exact (logs_intern _).bind fun _ => logs_pure _
  · rw [binary_combine ctx exponent span fun a b hop ha hb => hconcat ⟨a, b, hop, ha, hb⟩]
    cases hcombined : Evaluated.combine op exponent lhs rhs with
    | error e => exact logs_throw (.value e)
    | ok combined =>
      change Logs ctx.source _ (do complainAt ctx span combined.2; return combined.1)
      refine (logs_complainAt ctx span ?_).bind fun _ => logs_pure _
      exact fun problem hproblem => ⟨rfl, Evaluated.combine_problems hcombined problem hproblem⟩

/-- An expression logs what it may. -/
theorem logs_expr (ctx : Context ρ) (e : Expr) :
    Logs ctx.source (fun c => e.MayLog ctx.registry c) (expr ctx e : Eval π (Evaluated ρ)) := by
  induction e with
  | literal value span => exact (logs_literal value).bind fun _ => logs_pure _
  | identifier name span =>
    unfold expr
    split
    · exact logs_pure _
    · exact logs_throw _
  | negate operand span ih => exact ih.bind fun inner => logs_ofExcept _ _
  | binary op left right span ihl ihr =>
    refine (ihl.mono fun c hc => .inl hc).bind fun lhs => ?_
    refine (ihr.mono fun c hc => .inr (.inl hc)).bind fun rhs => ?_
    exact (logs_binary ctx op right span lhs rhs).mono fun c hc => .inr (.inr hc)
  | cast value unit span ih =>
    rw [expr_cast]
    refine (logs_complain ctx fun c hc => .inl hc).bind fun _ => ?_
    refine (ih.mono fun c hc => .inr (.inl hc)).bind fun inner => ?_
    refine (logs_complainAt ctx span fun problem hproblem => ?_).bind fun _ => logs_pure _
    obtain ⟨held, hmismatch⟩ := Evaluated.cast_problems _ _ _ _ problem hproblem
    exact .inr (.inr ⟨rfl, held, _, hmismatch⟩)
  | paren inner span ih => exact ih

/-- Displaying an expression logs what evaluating it does. -/
theorem logs_render [ToString ρ] (ctx : Context ρ) (e : Expr) :
    Logs ctx.source (fun c => e.MayLog ctx.registry c) (render ctx e : Eval π String) := by
  refine (logs_expr ctx e).bind fun evaluated => ?_
  split
  · exact logs_text _
  · split <;> exact logs_pure _

end Eval

end UnitScript
