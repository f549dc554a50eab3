import UnitScript.Proofs.Session.Logging

/-!
# Warnings about changes of dimension

A variable that is assigned a quantity of another dimension becomes a plain
number, and that is the only thing that is warned about under the code of such
a change.

* `Evaluated.downgrade?` is the quantity with which a variable changes its
  dimension; the `settle` lemmas say what is stored then and otherwise.
* `indifferent_expr` says that expressions never warn about a change of dimension,
  whatever was logged before them, so the warning of an assignment is its own.
-/

namespace UnitScript

/-! ## What an assignment settles -/

namespace Evaluated

variable {ρ : Type} {evaluated : Evaluated ρ}

/-- The quantity with which a variable changes its dimension: one that carries
a unit and is of another dimension. -/
def downgrade? (evaluated : Evaluated ρ) (binding : Binding) : Option Quantity :=
  evaluated.quantity.filter fun q => q.carrying && q.dimension != binding.dimension

/-- A variable that changes its dimension becomes a plain number. -/
theorem settle_of_downgrade {binding : Binding} {q : Quantity}
    (h : evaluated.downgrade? binding = some q) (name : String) :
    evaluated.settle name (some binding) =
      (⟨.real (Binding.plain q.si).displayed, some (.plain q.si)⟩,
        [.downgrade name binding.dimension q.dimension]) := by
  obtain ⟨hquantity, hother⟩ := Option.filter_eq_some_iff.1 h
  rw [Bool.and_eq_true, bne_iff_ne] at hother
  have hcarrying : evaluated.quantity.filter (·.carrying) = some q :=
    Option.filter_eq_some_iff.2 ⟨hquantity, hother.1⟩
  have hdimension : ¬binding.dimension = q.dimension := fun heq => hother.2 heq.symm
  simp only [settle, hcarrying, Quantity.bind, if_neg hdimension]

/-- Otherwise it keeps its dimension, and there is nothing to warn about. -/
theorem settle_of_no_downgrade {binding : Binding} (h : evaluated.downgrade? binding = none)
    (name : String) :
    (evaluated.settle name (some binding)).2 = [] ∧
      ∀ b, (evaluated.settle name (some binding)).1.unit = some b →
        b.dimension = binding.dimension := by
  unfold settle
  split
  · next q hq =>
      obtain ⟨hquantity, hcarrying⟩ := Option.filter_eq_some_iff.1 hq
      have hdimension : binding.dimension = q.dimension := by
        have hnot := Option.filter_eq_none_iff.1 h q hquantity
        simp only [hcarrying, Bool.true_and, bne_iff_ne, ne_eq, not_not] at hnot
        exact hnot.symm
      simp only [Quantity.bind, if_pos hdimension]
      refine ⟨trivial, fun b hb => ?_⟩
      cases hb
      exact hdimension.symm
  · refine ⟨rfl, fun b hb => ?_⟩
    cases hnumber : evaluated.value.number? with
    | some n =>
      simp only [hnumber] at hb
      cases hb
      rfl
    | none =>
      simp only [hnumber] at hb
      cases hb

/-- A binding is lost exactly to what is not a number. -/
theorem settle_unit_eq_none_iff (h : evaluated.Lawful) (name : String) (binding : Binding) :
    (evaluated.settle name (some binding)).1.unit = none ↔
      evaluated.value.isNumeric = false := by
  unfold settle
  split
  · next q hq =>
      have hnumeric := (h q (Option.filter_eq_some_iff.1 hq).1).1
      rw [hnumeric]
      exact iff_of_false nofun nofun
  · rw [← Bool.not_eq_true, Value.isNumeric_iff]
    cases evaluated.value.number? <;> simp

/-- What is stored is a number exactly if what is assigned is one. -/
theorem isNumeric_settle (h : evaluated.Lawful) (name : String) (previous : Option Binding) :
    (evaluated.settle name previous).1.value.isNumeric = evaluated.value.isNumeric := by
  unfold settle
  split
  · next q hq => exact ((h q (Option.filter_eq_some_iff.1 hq).1).1).symm
  · rfl

end Evaluated

/-! ## What evaluation warns about -/

namespace Problem

/-- The problem is a change of dimension. -/
def IsDowngrade (problem : Problem) : Prop :=
  ∃ name before after, problem = .downgrade name before after

/-- Only a change of dimension is reported under its code. -/
theorem isDowngrade_of_code {problem : Problem} (h : problem.code = .dimensionDowngrade) :
    problem.IsDowngrade := by
  cases problem with
  | downgrade name before after => exact ⟨name, before, after, rfl⟩
  | _ => exact absurd h (by simp only [code]; decide)

end Problem

theorem no_downgrade_nil : ∀ c ∈ ([] : List Complaint), ¬c.problem.IsDowngrade :=
  fun _ hc => absurd hc List.not_mem_nil

namespace UnitExpr

/-- What is wrong with an exponent is not a change of dimension. -/
theorem exponent_not_downgrade {e : UnitExpr} {c : Complaint} (h : e.exponent = .error c) :
    ¬c.problem.IsDowngrade := by
  unfold exponent at h
  split at h
  · split at h
    · cases h
    · cases h
      exact nofun
  · cases h
    exact nofun
  · cases h
    exact nofun

/-- What is wrong with a unit is not a change of dimension. -/
theorem reduce_not_downgrade (registry : Registry) (e : UnitExpr) :
    ∀ c ∈ (e.reduce registry).2, ¬c.problem.IsDowngrade := by
  fun_induction reduce registry e with
  | case1 => exact no_downgrade_nil
  | case2 =>
    intro c hc
    cases List.mem_singleton.1 hc
    rintro ⟨_, _, _, hdowngrade⟩
    cases hdowngrade
  | case3 => exact no_downgrade_nil
  | case4 =>
    intro c hc
    cases List.mem_singleton.1 hc
    rintro ⟨_, _, _, hdowngrade⟩
    cases hdowngrade
  | case5 inner span ih => exact ih
  | case6 left right span _ first hleft _ later hright ihl ihr
  | case7 left right span _ first hleft _ later hright ihl ihr =>
    rw [hleft] at ihl
    rw [hright] at ihr
    intro c hc
    exact (List.mem_append.1 hc).elim (ihl c) (ihr c)
  | case8 left right span _ first hleft _ _ ihl =>
    rw [hleft] at ihl
    exact ihl
  | case9 left right span _ first hleft wrong hwrong ihl =>
    rw [hleft] at ihl
    intro c hc
    rcases List.mem_append.1 hc with hc | hc
    · exact ihl c hc
    · cases List.mem_singleton.1 hc
      exact exponent_not_downgrade hwrong

theorem evaluate_not_downgrade (registry : Registry) (e : UnitExpr) :
    ∀ c ∈ (e.evaluate registry).2, ¬c.problem.IsDowngrade := by
  rw [e.complaints_evaluate registry]
  exact e.reduce_not_downgrade registry

end UnitExpr

/-- What an expression may complain about is not a change of dimension. -/
theorem Expr.not_downgrade_of_mayLog {registry : Registry} {c : Complaint} {e : Expr}
    (h : e.MayLog registry c) : ¬c.problem.IsDowngrade := by
  induction e with
  | literal value span => exact h.elim
  | identifier name span => exact h.elim
  | negate operand span ih => exact ih h
  | binary op left right span ihl ihr =>
    rcases h with h | h | ⟨_, a, b, h | h⟩
    · exact ihl h
    · exact ihr h
    · rw [h]
      exact nofun
    · rw [h]
      exact nofun
  | cast value unit span ih =>
    rcases h with h | h | ⟨_, held, wanted, h⟩
    · exact unit.evaluate_not_downgrade registry c h
    · exact ih h
    · rw [h]
      exact nofun
  | paren inner span ih => exact ih h

/-- No expression warns about a change of dimension. -/
theorem Eval.indifferent_expr {π ρ : Type} [StringPool π ρ] [DecidableEq ρ] (ctx : Context ρ)
    (e : Expr) :
    Logs ctx.source (fun c => ¬c.problem.IsDowngrade) (expr ctx e : Eval π (Evaluated ρ)) :=
  (logs_expr ctx e).mono fun _ => Expr.not_downgrade_of_mayLog

end UnitScript
