import UnitScript.Proofs.Number.Signs
import UnitScript.Proofs.Session.Evaluation
import UnitScript.Proofs.Session.Frames

/-!
# Well-formed unit bindings

A variable with a unit state is a number, and the measure it is displayed in
fits its dimension.  That is kept by assignments because the quantities of
expressions obey a law of their own: only numbers have one, a quantity with a
dimension carries a unit, and one that ends in a cast is of the dimension of
that cast.

* `Measure.Usable` is what a measure needs to display values.  The measures of
  unit expressions have it as soon as they are valid.
* `Quantity.Lawful` and `Evaluated.Lawful` are the law; `lawful_expr` proves it
  of every expression.
* `Binding.WellFormed` and `Variable.WellFormed` are the invariant, and
  `wellFormed_settle` the step that preserves it.
* `bindings_well_formed` is the whole statement, for every list of calls.
-/

namespace UnitScript

/-! ## Dimensions and measures -/

namespace Dimension

theorem isDimensionless_iff {d : Dimension} : d.isDimensionless = true ↔ d = .dimensionless := by
  obtain ⟨n⟩ := d
  simp [isDimensionless, dimensionless]

theorem dimensionless_pow (p : Int) : dimensionless ^ p = dimensionless := by
  change saturating (0 * p) = _
  rw [Int.zero_mul]
  decide

end Dimension

namespace Measure

/-- Values can be displayed in the measure, and without a label they are
displayed as they are. -/
structure Usable (m : Measure) : Prop where
  valid : m.isValid = true
  unlabelled : m.label = none → m.scale = 1.0

theorem usable_base (dimension : Dimension) : (base dimension).Usable where
  valid := by
    change Float.isFinite 1.0 = true
    decide
  unlabelled _ := rfl

end Measure

/-- The label of the whole adds no complaint. -/
theorem UnitExpr.complaints_evaluate (registry : Registry) (e : UnitExpr) :
    (e.evaluate registry).2 = (e.reduce registry).2 := by
  unfold evaluate
  generalize e.reduce registry = reduced
  obtain ⟨measure, complaints⟩ := reduced
  simp only
  split <;> rfl

/-- A unit expression with a meaning is usable: it is labelled unless its
measure is that of plain numbers. -/
theorem UnitExpr.usable_evaluate {registry : Registry} {e : UnitExpr}
    (h : (e.evaluate registry).1.isValid = true) : (e.evaluate registry).1.Usable := by
  refine ⟨h, ?_⟩
  unfold evaluate at h ⊢
  generalize e.reduce registry = reduced at h ⊢
  obtain ⟨measure, complaints⟩ := reduced
  simp only at h ⊢
  split
  · exact nofun
  · next hplain =>
      rw [if_neg hplain] at h
      intro _
      have hone : measure.isPlain = true := by
        rw [h] at hplain
        simpa using hplain
      exact Number.eq_one_of_beq (Bool.and_eq_true_iff.1 hone).2

/-! ## Quantities -/

namespace Quantity

/-- A quantity with a dimension carries a unit, and so does one that ends in a
cast, which has the dimension of that cast. -/
structure Lawful (q : Quantity) : Prop where
  carrying : q.dimension ≠ .dimensionless → q.carrying = true
  cast : ∀ m, q.cast = some m → q.carrying = true ∧ q.dimension = m.dimension ∧ m.Usable

theorem lawful_plain (x : Float) : (plain x).Lawful where
  carrying h := absurd rfl h
  cast _ := nofun

theorem lawful_ofBinding (b : Binding) : (ofBinding b).Lawful where
  carrying h := by
    have hdimension : b.dimension.isDimensionless = false :=
      Bool.eq_false_iff.2 fun hnone => h (Dimension.isDimensionless_iff.1 hnone)
    simp [ofBinding, Binding.carriesUnit, hdimension]
  cast _ := nofun

/-- A quantity computed from two others has no dimension unless one of them
has. -/
theorem lawful_of_operands {a b q : Quantity} (ha : a.Lawful) (hb : b.Lawful)
    (hcast : q.cast = none) (hcarrying : q.carrying = (a.carrying || b.carrying))
    (hdimension : a.dimension = .dimensionless → b.dimension = .dimensionless →
      q.dimension = .dimensionless) : q.Lawful where
  carrying h := by
    rw [hcarrying, Bool.or_eq_true]
    by_cases hleft : a.dimension = .dimensionless
    · exact .inr (hb.carrying fun hright => h (hdimension hleft hright))
    · exact .inl (ha.carrying hleft)
  cast m hm := by
    rw [hcast] at hm
    cases hm

theorem lawful_power? {a b q : Quantity} (ha : a.Lawful) (hb : b.Lawful) {exponent : Expr}
    (h : a.power? b (a.carrying || b.carrying) exponent = some q) : q.Lawful := by
  unfold power? at h
  split at h
  · split at h
    · split at h
      · cases h
        refine lawful_of_operands ha hb rfl rfl fun hleft _ => ?_
        change a.dimension ^ _ = _
        rw [hleft, Dimension.dimensionless_pow]
      · cases h
    · split at h
      · cases h
        exact lawful_of_operands ha hb rfl rfl fun _ _ => rfl
      · cases h
  · cases h

/-- Arithmetic on quantities obeys the law. -/
theorem lawful_combine? {op : ArithOp} {a b q : Quantity} (ha : a.Lawful) (hb : b.Lawful)
    {exponent : Expr} (h : combine? op a b exponent = some q) : q.Lawful := by
  cases op with
  | add =>
    simp only [combine?] at h
    split at h
    · cases h
      exact lawful_of_operands ha hb rfl rfl fun hleft _ => hleft
    · cases h
  | sub =>
    simp only [combine?] at h
    split at h
    · cases h
      exact lawful_of_operands ha hb rfl rfl fun hleft _ => hleft
    · cases h
  | mul =>
    cases h
    refine lawful_of_operands ha hb rfl rfl fun hleft hright => ?_
    change a.dimension * b.dimension = _
    rw [hleft, hright]
    decide
  | div =>
    cases h
    refine lawful_of_operands ha hb rfl rfl fun hleft hright => ?_
    change a.dimension / b.dimension = _
    rw [hleft, hright]
    decide
  | pow => exact lawful_power? ha hb h

end Quantity

/-! ## Variables -/

/-- The measure that the variable is displayed in is usable and of its
dimension. -/
structure Binding.WellFormed (b : Binding) : Prop where
  dimension : b.preferred.dimension = b.dimension
  usable : b.preferred.Usable

namespace Binding

theorem wellFormed_plain (si : Float) : (plain si).WellFormed := ⟨rfl, Measure.usable_base _⟩

/-- A binding without a unit is that of a plain number. -/
theorem WellFormed.plain_of_not_carriesUnit {b : Binding} (hb : b.WellFormed)
    (h : b.carriesUnit = false) :
    b.dimension = .dimensionless ∧ b.preferred.scale = 1.0 := by
  unfold carriesUnit label at h
  rw [Bool.or_eq_false_iff] at h
  refine ⟨Dimension.isDimensionless_iff.1 (by simpa using h.1), hb.usable.unlabelled ?_⟩
  simpa using h.2

end Binding

/-- A variable with a unit state is a number, and its unit state is well
formed. -/
def Variable.WellFormed {ρ : Type} (held : Variable ρ) : Prop :=
  ∀ binding, held.unit = some binding → held.value.isNumeric = true ∧ binding.WellFormed

/-- Binding a lawful quantity gives a well-formed binding, whatever the
variable was bound to before. -/
theorem Quantity.wellFormed_bind {q : Quantity} (hq : q.Lawful) (name : String)
    {previous : Option Binding} (hprevious : ∀ b, previous = some b → b.WellFormed) :
    (q.bind name previous).1.WellFormed := by
  cases previous with
  | none =>
    cases hcast : q.cast with
    | none =>
      simp only [Quantity.bind, hcast]
      exact ⟨rfl, Measure.usable_base q.dimension⟩
    | some m =>
      obtain ⟨_, hdimension, husable⟩ := hq.cast m hcast
      simp only [Quantity.bind, hcast]
      exact ⟨hdimension.symm, husable⟩
  | some b =>
    have hb := hprevious b rfl
    cases hcast : q.cast with
    | none =>
      simp only [Quantity.bind, hcast]
      split
      · next hsame => exact ⟨hb.dimension.trans hsame, hb.usable⟩
      · exact Binding.wellFormed_plain q.si
    | some m =>
      obtain ⟨_, hdimension, husable⟩ := hq.cast m hcast
      simp only [Quantity.bind, hcast]
      split
      · exact ⟨hdimension.symm, husable⟩
      · exact Binding.wellFormed_plain q.si

namespace Evaluated

variable {ρ : Type}

/-- Only a number stands for a quantity, and the quantity obeys the law. -/
def Lawful (evaluated : Evaluated ρ) : Prop :=
  ∀ q, evaluated.quantity = some q → evaluated.value.isNumeric = true ∧ q.Lawful

theorem lawful_ofValue (value : Value ρ) : (ofValue value).Lawful := by
  intro q hq
  obtain ⟨x, hx, rfl⟩ := Option.map_eq_some_iff.1 hq
  have hnumeric : value.isNumeric = true := Value.isNumeric_iff.2 (by rw [hx]; rfl)
  exact ⟨hnumeric, Quantity.lawful_plain x⟩

theorem lawful_ofVariable {held : Variable ρ} (h : held.WellFormed) : (ofVariable held).Lawful := by
  cases hunit : held.unit with
  | none =>
    have hplain : ofVariable held = ofValue held.value := by
      simp only [ofVariable, ofValue, hunit]
    rw [hplain]
    exact lawful_ofValue held.value
  | some binding =>
    intro q hq
    simp only [ofVariable, hunit] at hq
    cases hq
    exact ⟨(h binding hunit).1, Quantity.lawful_ofBinding binding⟩

theorem lawful_negate {inner result : Evaluated ρ} (hinner : inner.Lawful)
    (h : inner.negate = .ok result) : result.Lawful := by
  unfold negate at h
  cases hvalue : inner.value.negate with
  | error e => rw [hvalue] at h; cases h
  | ok value =>
    rw [hvalue] at h
    cases h
    intro q hq
    obtain ⟨q', hq', rfl⟩ := Option.map_eq_some_iff.1 hq
    have hlaw := (hinner q' hq').2
    exact ⟨Value.isNumeric_negate hvalue, ⟨hlaw.carrying, hlaw.cast⟩⟩

/-- A result without a quantity obeys the law. -/
theorem lawful_of_none {evaluated : Evaluated ρ} (h : evaluated.quantity = none) :
    evaluated.Lawful := by
  intro q hq
  rw [h] at hq
  cases hq

theorem lawful_combine [DecidableEq ρ] {op : BinaryOp} {exponent : Expr}
    {lhs rhs result : Evaluated ρ} {problems : List Problem} (hlhs : lhs.Lawful)
    (hrhs : rhs.Lawful) (h : combine op exponent lhs rhs = .ok (result, problems)) :
    result.Lawful := by
  obtain ⟨value, _, rfl, _⟩ | ⟨_, a, b, ha, hb, ⟨_, _, rfl, _⟩ | ⟨value, hnumeric, rfl, _⟩⟩ :=
    combine_cases h
  · exact lawful_ofValue value
  · exact lawful_of_none rfl
  · exact fun q hq => ⟨hnumeric, Quantity.lawful_combine? (hlhs a ha).2 (hrhs b hb).2 hq⟩

/-- A cast reads a number. -/
theorem isNumeric_castValue (measure : Measure) (unit : UnitExpr) (bound : Option Binding)
    (inner : Evaluated ρ) : (inner.castValue measure unit bound).1.isNumeric = true := by
  unfold castValue
  split
  · rfl
  · next hnumber =>
      split
      · rfl
      · refine Value.isNumeric_iff.2 ?_
        rw [Bool.or_eq_true, not_or] at hnumber
        exact Option.isSome_iff_ne_none.2 (by simpa using hnumber.2)

theorem lawful_cast {measure : Measure} (h : measure.isValid = true → measure.Usable)
    (unit : UnitExpr) (bound : Option Binding) (inner : Evaluated ρ) :
    (inner.cast measure unit bound).1.Lawful := by
  intro q hq
  simp only [cast] at hq ⊢
  split at hq
  · next hvalid =>
      cases hq
      refine ⟨isNumeric_castValue measure unit bound inner, fun _ => rfl, fun m hm => ?_⟩
      cases hm
      exact ⟨rfl, rfl, h hvalid⟩
  · cases hq

/-- What an assignment stores is well formed, whatever the variable was bound
to before. -/
theorem wellFormed_settle {evaluated : Evaluated ρ} (h : evaluated.Lawful) (name : String)
    {previous : Option Binding} (hprevious : ∀ b, previous = some b → b.WellFormed) :
    (evaluated.settle name previous).1.WellFormed := by
  unfold settle
  split
  · next q hq =>
      intro binding hbinding
      cases hbinding
      have hlawful : q.Lawful := (h q (Option.filter_eq_some_iff.1 hq).1).2
      exact ⟨rfl, Quantity.wellFormed_bind hlawful name hprevious⟩
  · intro binding hbinding
    simp only at hbinding ⊢
    split at hbinding
    · next b n hnumber =>
        cases hbinding
        have hb := hprevious b rfl
        exact ⟨Value.isNumeric_iff.2 (by rw [hnumber]; rfl), hb.dimension, hb.usable⟩
    · cases hbinding
    · obtain ⟨q, hq, rfl⟩ := Option.map_eq_some_iff.1 hbinding
      exact ⟨(h q hq).1, Binding.wellFormed_plain q.si⟩

end Evaluated

/-! ## Expressions -/

/-- All variables of the open scopes are well formed. -/
def Scopes.WellFormed {ρ : Type} (scopes : Scopes ρ) : Prop :=
  ∀ held ∈ scopes.contents, held.WellFormed

namespace Eval

variable {π ρ α β : Type}

/-- A sequence succeeds if its parts do. -/
theorem bind_eq_ok {m : Eval π α} {next : α → Eval π β} {s s'' : Store π} {result : β}
    (h : (m >>= next) s = .ok result s'') :
    ∃ value s', m s = .ok value s' ∧ next value s' = .ok result s'' := by
  change EStateM.bind m next s = _ at h
  unfold EStateM.bind at h
  split at h
  · next value s' hm => exact ⟨value, s', hm, h⟩
  · cases h

theorem ofExcept_eq_ok {ε : Type} {fault : ε → Fault} {outcome : Except ε α} {s s' : Store π}
    {result : α} (h : ofExcept fault outcome s = .ok result s') : outcome = .ok result := by
  cases outcome with
  | error e => cases h
  | ok value =>
    cases h
    rfl

variable [StringPool π ρ] [DecidableEq ρ]

/-- An operator that gives a result concatenates two strings, or combines its
operands. -/
theorem binary_eq_ok {ctx : Context ρ} {op : BinaryOp} {exponent : Expr} {span : Span}
    {lhs rhs result : Evaluated ρ} {s s' : Store π}
    (h : binary ctx op exponent span lhs rhs s = .ok result s') :
    (∃ r, result = .ofValue (.pointer r)) ∨
      ∃ problems, Evaluated.combine op exponent lhs rhs = .ok (result, problems) := by
  by_cases hconcat : ∃ a b, op = .arith .add ∧ lhs.value = .pointer a ∧ rhs.value = .pointer b
  · obtain ⟨a, b, rfl, ha, hb⟩ := hconcat
    rw [binary_concat ctx exponent span ha hb] at h
    obtain ⟨front, s₁, _, h⟩ := bind_eq_ok h
    obtain ⟨back, s₂, _, h⟩ := bind_eq_ok h
    obtain ⟨r, s₃, _, h⟩ := bind_eq_ok h
    cases h
    exact .inl ⟨r, rfl⟩
  · rw [binary_combine ctx exponent span fun a b hop ha hb => hconcat ⟨a, b, hop, ha, hb⟩] at h
    obtain ⟨⟨combined, problems⟩, s₁, hcombined, h⟩ := bind_eq_ok h
    obtain ⟨_, s₂, _, h⟩ := bind_eq_ok h
    cases h
    exact .inr ⟨problems, ofExcept_eq_ok hcombined⟩

theorem lawful_binary {ctx : Context ρ} {op : BinaryOp} {exponent : Expr} {span : Span}
    {lhs rhs result : Evaluated ρ} {s s' : Store π} (hlhs : lhs.Lawful) (hrhs : rhs.Lawful)
    (h : binary ctx op exponent span lhs rhs s = .ok result s') : result.Lawful := by
  rcases binary_eq_ok h with ⟨r, rfl⟩ | ⟨problems, hcombined⟩
  · exact Evaluated.lawful_ofValue _
  · exact Evaluated.lawful_combine hlhs hrhs hcombined

/-- Every expression that evaluates obeys the law. -/
theorem lawful_expr {ctx : Context ρ} (hscopes : ctx.scopes.WellFormed) {e : Expr}
    {s s' : Store π} {result : Evaluated ρ} (h : expr ctx e s = .ok result s') :
    result.Lawful := by
  induction e generalizing s s' result with
  | literal value span =>
    obtain ⟨v, s₁, _, h⟩ := bind_eq_ok h
    cases h
    exact Evaluated.lawful_ofValue v
  | identifier name span =>
    cases hfound : ctx.scopes.lookup? name with
    | some held =>
      simp only [expr, hfound] at h
      cases h
      exact Evaluated.lawful_ofVariable (hscopes held (Scopes.mem_contents_of_lookup? hfound))
    | none =>
      simp only [expr, hfound] at h
      cases h
  | negate operand span ih =>
    obtain ⟨inner, s₁, hinner, h⟩ := bind_eq_ok h
    exact Evaluated.lawful_negate (ih hinner) (ofExcept_eq_ok h)
  | binary op left right span ihl ihr =>
    obtain ⟨lhs, s₁, hlhs, h⟩ := bind_eq_ok h
    obtain ⟨rhs, s₂, hrhs, h⟩ := bind_eq_ok h
    exact lawful_binary (ihl hlhs) (ihr hrhs) h
  | cast value unit span ih =>
    rw [expr_cast] at h
    obtain ⟨_, s₁, _, h⟩ := bind_eq_ok h
    obtain ⟨inner, s₂, _, h⟩ := bind_eq_ok h
    obtain ⟨_, s₃, _, h⟩ := bind_eq_ok h
    cases h
    exact Evaluated.lawful_cast UnitExpr.usable_evaluate unit _ inner
  | paren inner span ih => exact ih h

end Eval

/-! ## Reachable sessions -/

namespace Scopes

variable {ρ : Type}

theorem wellFormed_global : (global : Scopes ρ).WellFormed :=
  fun _ hheld => absurd hheld List.not_mem_nil

/-- A variable that is there after a scope was closed was there before. -/
theorem mem_contents_of_closeScope {scopes : Scopes ρ} {held : Variable ρ}
    (h : held ∈ scopes.closeScope.2.contents) : held ∈ scopes.contents := by
  obtain ⟨levels⟩ := scopes
  rcases levels with _ | ⟨inner, _ | ⟨outer, rest⟩⟩
  · exact h
  · exact h
  · exact List.mem_append_right inner.values h

/-- A variable that is there after one was put into the innermost scope is that
one or was there before. -/
theorem mem_contents_of_insert {scope : Scope ρ} {outer : List (Scope ρ)} {name : String}
    {held other : Variable ρ} (h : other ∈ contents ⟨scope.insert name held :: outer⟩) :
    other = held ∨ other ∈ contents ⟨scope :: outer⟩ := by
  rcases List.mem_append.1 h with hinner | houter
  · obtain ⟨entry, hentry, rfl⟩ := List.mem_map.1 hinner
    rcases Table.mem_insertEntry hentry with rfl | hold
    · exact .inl rfl
    · exact .inr (List.mem_append_left _ (List.mem_map_of_mem hold))
  · exact .inr (List.mem_append_right _ houter)

theorem wellFormed_closeScope {scopes : Scopes ρ} (h : scopes.WellFormed) :
    scopes.closeScope.2.WellFormed :=
  fun held hheld => h held (mem_contents_of_closeScope hheld)

/-- A well-formed variable can be put into the innermost scope. -/
theorem wellFormed_insert {scope : Scope ρ} {outer : List (Scope ρ)}
    (h : WellFormed ⟨scope :: outer⟩) (name : String) {held : Variable ρ}
    (hheld : held.WellFormed) : WellFormed ⟨scope.insert name held :: outer⟩ := by
  intro other hother
  rcases mem_contents_of_insert hother with rfl | hold
  · exact hheld
  · exact h other hold

end Scopes

namespace Session

variable {π ρ : Type} [StringPool π ρ] [DecidableEq ρ]

/-- The bindings stay well formed. -/
theorem wellFormed_invariant : ScopesInvariant π (Scopes.WellFormed (ρ := ρ)) where
  opens _ h := h
  closes _ h := Scopes.wellFormed_closeScope h
  assigns name e session h := by
    rcases scopes_assign name e session with
      heq | ⟨evaluated, store, scope, outer, hresult, hlevels, heq⟩
    · rw [heq]
      exact h
    · rw [heq]
      have hscopes : Scopes.WellFormed ⟨scope :: outer⟩ := by
        rw [← hlevels]
        exact h
      refine Scopes.wellFormed_insert hscopes name ?_
      refine Evaluated.wellFormed_settle (Eval.lawful_expr h hresult) name ?_
      intro binding hbinding
      obtain ⟨held, hget, hunit⟩ := Option.bind_eq_some_iff.1 hbinding
      have hmem : held ∈ Scopes.contents ⟨scope :: outer⟩ :=
        List.mem_append_left _ (Table.mem_values_of_get? hget)
      exact (hscopes held hmem binding hunit).2

/-- In every session that calls lead to, a variable with a unit state is a
number, displayed in a finite measure of its own dimension, which has no label
only if its factor is one.  So a variable whose unit state carries no unit is
a plain number.  And an expression that evaluates there stands for a quantity
only if it is a number; a quantity with a dimension carries a unit, and one
that ends in a cast carries a unit, has the dimension of the cast, and the
cast is valid. -/
theorem bindings_well_formed (source : Source) (limits : Limits) (registry : Registry)
    (calls : List Call) :
    let session : Session Heap Pointer :=
      (start source limits registry Heap.empty).performAll calls
    (∀ held ∈ session.scopes.contents, ∀ binding, held.unit = some binding →
      held.value.isNumeric = true ∧
      binding.preferred.dimension = binding.dimension ∧
      binding.preferred.scale.isFinite = true ∧
      (binding.preferred.label = none → binding.preferred.scale = 1.0) ∧
      (binding.carriesUnit = false →
        binding.dimension = .dimensionless ∧ binding.preferred.scale = 1.0)) ∧
    (∀ e evaluated store, Eval.expr session.context e session.store = .ok evaluated store →
      ∀ q, evaluated.quantity = some q →
        evaluated.value.isNumeric = true ∧
        (q.dimension ≠ .dimensionless → q.carrying = true) ∧
        ∀ cast, q.cast = some cast →
          q.carrying = true ∧ q.dimension = cast.dimension ∧ cast.isValid = true) := by
  intro session
  have hscopes : session.scopes.WellFormed :=
    (wellFormed_invariant (π := Heap)).performAll Scopes.wellFormed_global calls
  refine ⟨?_, ?_⟩
  · intro held hheld binding hbinding
    obtain ⟨hnumeric, hbound⟩ := hscopes held hheld binding hbinding
    exact ⟨hnumeric, hbound.dimension, hbound.usable.valid, hbound.usable.unlabelled,
      hbound.plain_of_not_carriesUnit⟩
  · intro e evaluated store hresult q hq
    have hlawful : evaluated.Lawful := Eval.lawful_expr hscopes hresult
    obtain ⟨hnumeric, hlaw⟩ := hlawful q hq
    refine ⟨hnumeric, hlaw.carrying, fun cast hcast => ?_⟩
    obtain ⟨hcarrying, hdimension, husable⟩ := hlaw.cast cast hcast
    exact ⟨hcarrying, hdimension, husable.valid⟩

end Session

end UnitScript
