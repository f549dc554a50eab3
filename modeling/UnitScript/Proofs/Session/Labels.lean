import UnitScript.Proofs.UnitLabels

/-!
# Labels of variables

The label of a variable is that of a cast somewhere in the script, so it is the
text of a unit expression that can be pasted into another cast.

* `Measure.Labelled` says that a label is the text of a legible unit expression
  of the same measure.  `labelled_evaluate` proves it of legible units, and
  `Labelled.parse_cast` pastes such a label into a cast.
* `Eval.cast?_expr` says that the cast which an expression ends in is one to a
  unit of the expression, and `labelled_settle` that an assignment stores no
  other labels.
* `KeepsLabels` is how a session and a later one are related;
  `keepsLabels_stepRelation` proves it of statements.
* `labels_faithful` is the whole statement.
-/

namespace UnitScript

/-- The label is the text of a legible unit expression of this measure. -/
def Measure.Labelled (registry : Registry) (measure : Measure) : Prop :=
  ∀ label, measure.label = some label → ∃ unit : UnitExpr, unit.Legible ∧ unit.text = label ∧
    unit.evaluate registry = (measure, [])

namespace Measure

variable {registry : Registry}

theorem labelled_base (dimension : Dimension) : (base dimension).Labelled registry :=
  fun _ hlabel => by cases hlabel

/-- A legible unit expression gives a measure that is labelled, if it gives one
at all. -/
theorem labelled_evaluate {unit : UnitExpr} (h : unit.Legible)
    (hvalid : (unit.evaluate registry).1.isValid = true) :
    (unit.evaluate registry).1.Labelled registry := by
  intro label hlabel
  obtain ⟨part, hpart, htext, hmeasure⟩ := UnitExpr.exists_part_of_label hlabel
  refine ⟨part, h.part hpart, htext, ?_⟩
  rw [hmeasure]
  exact Prod.ext rfl (UnitExpr.clean_evaluate_of_isValid hvalid)

/-- The text of a cast to the label of a measure is read as a cast to a unit of
that measure. -/
theorem Labelled.parse_cast {measure : Measure} (h : measure.Labelled registry) {label : String}
    (hlabel : measure.label = some label) {name : String} (hname : Token.IsName name)
    (file : String) :
    let pasted : Source := ⟨file, name ++ "[" ++ label ++ "]"⟩
    let parsed := Program.parse pasted pasted.lex.tokens
    pasted.lex.log = ∅ ∧ parsed.log.totalErrors = 0 ∧
      ∃ program unit here span, parsed.program = some program ∧
        program.statements = [.display (.cast (.identifier name here) unit span)] ∧
        unit.evaluate registry = (measure, []) := by
  obtain ⟨unit, hlegible, rfl, hmeasure⟩ := h label hlabel
  have hclean : (unit.evaluate registry).2 = [] := by rw [hmeasure]
  obtain ⟨hlog, herrors, program, read, here, span, hprogram, hstatements, herase⟩ :=
    UnitExpr.parse_cast (hlegible.shaped hclean) (hlegible.writable hclean) hname file
  refine ⟨hlog, herrors, program, read, here, span, hprogram, hstatements, ?_⟩
  rw [UnitExpr.evaluate_congr herase hclean, hmeasure]

end Measure

/-! ## Casts that expressions end in -/

/-- Arithmetic on quantities ends in no cast. -/
theorem Quantity.cast_combine? {op : ArithOp} {a b q : Quantity} {exponent : Expr}
    (h : combine? op a b exponent = some q) : q.cast = none := by
  cases op with
  | add =>
    simp only [combine?] at h
    split at h <;> cases h
    rfl
  | sub =>
    simp only [combine?] at h
    split at h <;> cases h
    rfl
  | mul =>
    cases h
    rfl
  | div =>
    cases h
    rfl
  | pow =>
    simp only [combine?, power?] at h
    split at h
    · split at h
      · split at h <;> cases h
        rfl
      · split at h <;> cases h
        rfl
    · cases h

namespace Evaluated

variable {ρ : Type}

/-- The measure of the cast that the expression ends in. -/
def cast? (evaluated : Evaluated ρ) : Option Measure := evaluated.quantity.bind (·.cast)

theorem cast?_ofValue (value : Value ρ) : (ofValue value).cast? = none := by
  unfold cast? ofValue
  cases value.number? <;> rfl

theorem cast?_ofVariable (held : Variable ρ) : (ofVariable held).cast? = none := by
  unfold cast? ofVariable
  cases held.unit with
  | none => exact cast?_ofValue held.value
  | some binding => rfl

theorem cast?_negate {inner result : Evaluated ρ} (h : inner.negate = .ok result) :
    result.cast? = inner.cast? := by
  unfold negate at h
  cases hvalue : inner.value.negate with
  | error e => rw [hvalue] at h; cases h
  | ok value =>
    rw [hvalue] at h
    cases h
    unfold cast?
    cases inner.quantity <;> rfl

/-- Operators end in no cast. -/
theorem cast?_combine [DecidableEq ρ] {op : BinaryOp} {exponent : Expr}
    {lhs rhs result : Evaluated ρ} {problems : List Problem}
    (h : combine op exponent lhs rhs = .ok (result, problems)) : result.cast? = none := by
  obtain ⟨value, _, rfl, _⟩ | ⟨sign, a, b, _, _, ⟨_, _, rfl, _⟩ | ⟨_, _, rfl, _⟩⟩ :=
    combine_cases h
  · exact cast?_ofValue value
  · rfl
  · unfold cast?
    cases hq : Quantity.combine? sign a b exponent with
    | none => rfl
    | some q => exact Quantity.cast_combine? hq

/-- A cast ends in its measure, if that has a meaning. -/
theorem cast?_cast {measure m : Measure} {unit : UnitExpr} {bound : Option Binding}
    {inner : Evaluated ρ} (h : (inner.cast measure unit bound).1.cast? = some m) :
    m = measure ∧ measure.isValid = true := by
  simp only [cast, cast?] at h
  split at h
  · next hvalid =>
      cases h
      exact ⟨rfl, hvalid⟩
  · cases h

/-- A number with a unit state can be cast to a measure of its dimension. -/
theorem cast_of_dimension {measure : Measure} {binding : Binding} (inner : Evaluated ρ)
    (hvalid : measure.isValid = true) (hnumeric : inner.value.isNumeric = true)
    (hdimension : binding.dimension = measure.dimension) (unit : UnitExpr) :
    ∃ value si, inner.cast measure unit (some binding) =
      (⟨value, some ⟨si, binding.dimension, true, some measure⟩⟩, []) := by
  have hnumber : inner.value.number?.isNone = false := by
    have hsome := Value.isNumeric_iff.1 hnumeric
    cases hvalue : inner.value.number? with
    | none =>
      rw [hvalue] at hsome
      cases hsome
    | some n => rfl
  simp only [cast, castValue, hvalid, hnumber, Bool.not_true, Bool.or_false, Bool.false_eq_true,
    if_false, if_true, hdimension]
  exact ⟨_, _, rfl⟩

end Evaluated

namespace Eval

variable {π ρ : Type} [StringPool π ρ] [DecidableEq ρ]

theorem cast?_binary {ctx : Context ρ} {op : BinaryOp} {exponent : Expr} {span : Span}
    {lhs rhs result : Evaluated ρ} {s s' : Store π}
    (h : binary ctx op exponent span lhs rhs s = .ok result s') : result.cast? = none := by
  rcases binary_eq_ok h with ⟨r, rfl⟩ | ⟨problems, hcombined⟩
  · exact Evaluated.cast?_ofValue _
  · exact Evaluated.cast?_combine hcombined

/-- The measure that an expression ends in is that of a unit it casts to. -/
theorem cast?_expr {ctx : Context ρ} {e : Expr} {s s' : Store π} {result : Evaluated ρ}
    (h : expr ctx e s = .ok result s') {measure : Measure} (hcast : result.cast? = some measure) :
    ∃ unit ∈ e.units, (unit.evaluate ctx.registry).1 = measure ∧ measure.isValid = true := by
  induction e generalizing s s' result with
  | literal value span =>
    obtain ⟨v, s₁, _, h⟩ := bind_eq_ok h
    cases h
    rw [Evaluated.cast?_ofValue] at hcast
    cases hcast
  | identifier name span =>
    cases hfound : ctx.scopes.lookup? name with
    | some held =>
      simp only [expr, hfound] at h
      cases h
      rw [Evaluated.cast?_ofVariable] at hcast
      cases hcast
    | none =>
      simp only [expr, hfound] at h
      cases h
  | negate operand span ih =>
    obtain ⟨inner, s₁, hinner, h⟩ := bind_eq_ok h
    rw [Evaluated.cast?_negate (ofExcept_eq_ok h)] at hcast
    exact ih hinner hcast
  | binary op left right span _ _ =>
    obtain ⟨lhs, s₁, _, h⟩ := bind_eq_ok h
    obtain ⟨rhs, s₂, _, h⟩ := bind_eq_ok h
    rw [cast?_binary h] at hcast
    cases hcast
  | cast value unit span _ =>
    rw [expr_cast] at h
    obtain ⟨_, s₁, _, h⟩ := bind_eq_ok h
    obtain ⟨inner, s₂, _, h⟩ := bind_eq_ok h
    obtain ⟨_, s₃, _, h⟩ := bind_eq_ok h
    cases h
    obtain ⟨rfl, hvalid⟩ := Evaluated.cast?_cast hcast
    exact ⟨unit, List.mem_append_right _ (List.mem_singleton_self unit), rfl, hvalid⟩
  | paren inner span ih => exact ih h hcast

end Eval

/-! ## Assignments -/

section Assignments

variable {ρ : Type} {registry : Registry} {previous : Option Binding}
  (hprevious : ∀ b, previous = some b → b.preferred.Labelled registry)

include hprevious

/-- A quantity is displayed in the measure of its cast, in the one that the
variable had, or in one without a label. -/
theorem Quantity.labelled_bind {q : Quantity}
    (h : ∀ measure, q.cast = some measure → measure.Labelled registry) (name : String) :
    (q.bind name previous).1.preferred.Labelled registry := by
  cases previous with
  | none =>
    cases hcast : q.cast with
    | none =>
      simp only [Quantity.bind, hcast]
      exact Measure.labelled_base q.dimension
    | some measure =>
      simp only [Quantity.bind, hcast]
      exact h measure hcast
  | some b =>
    simp only [Quantity.bind]
    split
    · cases hcast : q.cast with
      | none => exact hprevious b rfl
      | some measure => exact h measure hcast
    · exact Measure.labelled_base .dimensionless

/-- A variable that is assigned to is displayed in the measure of a cast, in the
one it had, or in one without a label. -/
theorem Evaluated.labelled_settle {evaluated : Evaluated ρ}
    (h : ∀ measure, evaluated.cast? = some measure → measure.Labelled registry) (name : String)
    {binding : Binding} (hbinding : (evaluated.settle name previous).1.unit = some binding) :
    binding.preferred.Labelled registry := by
  unfold settle at hbinding
  split at hbinding
  · next q hq =>
      cases hbinding
      refine Quantity.labelled_bind hprevious (fun measure hmeasure => h measure ?_) name
      rw [cast?, (Option.filter_eq_some_iff.1 hq).1]
      exact hmeasure
  · simp only at hbinding
    split at hbinding
    · next b n _ =>
        cases hbinding
        exact hprevious b rfl
    · cases hbinding
    · obtain ⟨q, _, rfl⟩ := Option.map_eq_some_iff.1 hbinding
      exact Measure.labelled_base .dimensionless

end Assignments

/-! ## Sessions -/

/-- All units that the expression casts to are legible. -/
def Expr.Legible (e : Expr) : Prop := ∀ unit ∈ e.units, unit.Legible

/-- All variables with a unit state are displayed in labelled measures. -/
def Scopes.Labelled {ρ : Type} (registry : Registry) (scopes : Scopes ρ) : Prop :=
  ∀ held ∈ scopes.contents, ∀ binding, held.unit = some binding →
    binding.preferred.Labelled registry

namespace Session

variable {π ρ : Type}

/-- The later session has the same units, and its variables are labelled if
those of the first one are. -/
structure KeepsLabels (before after : Session π ρ) : Prop where
  registry : after.registry = before.registry
  labelled : before.scopes.Labelled before.registry → after.scopes.Labelled before.registry

namespace KeepsLabels

theorem refl (session : Session π ρ) : session.KeepsLabels session := ⟨rfl, id⟩

theorem trans {before middle after : Session π ρ} (h : before.KeepsLabels middle)
    (h' : middle.KeepsLabels after) : before.KeepsLabels after where
  registry := h'.registry.trans h.registry
  labelled hbefore := by
    have hmiddle := h.labelled hbefore
    rw [← h.registry] at hmiddle ⊢
    exact h'.labelled hmiddle

end KeepsLabels

theorem keepsLabels_evaluating {α : Type} (eval : Context ρ → Eval π α) (session : Session π ρ) :
    session.KeepsLabels (final (evaluating eval session)) := by
  obtain ⟨store, heq⟩ := frame_evaluating eval session
  rw [heq]
  exact ⟨rfl, id⟩

theorem keepsLabels_emit (line : String) (session : Session π ρ) :
    session.KeepsLabels (final (emit line session)) := by
  unfold emit
  split <;> exact ⟨rfl, id⟩

theorem keepsLabels_openScope (session : Session π ρ) :
    session.KeepsLabels { session with scopes := session.scopes.openScope } :=
  ⟨rfl, id⟩

variable [StringPool π ρ]

theorem keepsLabels_closeScope (session : Session π ρ) :
    session.KeepsLabels (final (closeScope session)) := by
  obtain ⟨pool, heq⟩ := frame_closeScope session
  rw [heq]
  exact ⟨rfl, fun h held hheld => h held (Scopes.mem_contents_of_closeScope hheld)⟩

variable [DecidableEq ρ]

theorem keepsLabels_assign (name : String) {e : Expr} (he : e.Legible) (session : Session π ρ) :
    session.KeepsLabels (final (assign name e session)) := by
  refine ⟨?_, fun h => ?_⟩
  · obtain ⟨scopes, store, heq⟩ := frame_assign name e session
    rw [heq]
  rcases scopes_assign name e session with
    heq | ⟨evaluated, store, scope, outer, hresult, hlevels, heq⟩
  · rw [heq]
    exact h
  have hscopes : Scopes.Labelled session.registry ⟨scope :: outer⟩ := by
    rw [← hlevels]
    exact h
  rw [heq]
  intro held hheld binding hbinding
  rcases Scopes.mem_contents_of_insert hheld with rfl | hold
  · refine Evaluated.labelled_settle ?_ ?_ name hbinding
    · intro b hb
      obtain ⟨found, hget, hunit⟩ := Option.bind_eq_some_iff.1 hb
      exact hscopes found (List.mem_append_left _ (Table.mem_values_of_get? hget)) b hunit
    · intro measure hmeasure
      obtain ⟨unit, hunit, rfl, hvalid⟩ := Eval.cast?_expr hresult hmeasure
      exact Measure.labelled_evaluate (he unit hunit) hvalid
  · exact hscopes held hold binding hbinding

/-- A variable that is cast to the measure it is displayed in keeps its
dimension, and there is nothing to complain about. -/
theorem quantity_cast {session : Session π ρ} {name : String} {held : Variable ρ}
    {binding : Binding} (hfound : session.scopes.lookup? name = some held)
    (hheld : held.WellFormed) (hunit : held.unit = some binding) {unit : UnitExpr}
    (hmeasure : unit.evaluate session.registry = (binding.preferred, [])) (here span : Span) :
    ∃ q, quantity (.cast (.identifier name here) unit span) session = .ok (some q) session ∧
      q.dimension = binding.dimension ∧ q.cast = some binding.preferred := by
  obtain ⟨hnumeric, hbinding⟩ := hheld binding hunit
  obtain ⟨value, si, hcast⟩ := Evaluated.cast_of_dimension (.ofVariable held)
    hbinding.usable.valid hnumeric hbinding.dimension.symm unit
  have hbound : session.context.binding? (.identifier name here) = some binding := by
    change (session.scopes.lookup? name).bind (·.unit) = _
    rw [hfound]
    exact hunit
  have hinner : (Eval.expr session.context (.identifier name here) : Eval π (Evaluated ρ))
      session.store = .ok (.ofVariable held) session.store := by
    simp only [Eval.expr, show session.context.scopes.lookup? name = some held from hfound]
    rfl
  refine ⟨⟨si, binding.dimension, true, some binding.preferred⟩, ?_, rfl, rfl⟩
  have hexpr : (Eval.expr session.context (.cast (.identifier name here) unit span) :
      Eval π (Evaluated ρ)) session.store =
      .ok ⟨value, some ⟨si, binding.dimension, true, some binding.preferred⟩⟩ session.store := by
    have hlogged : (Eval.complain session.context [] : Eval π Unit) session.store =
        .ok () session.store := rfl
    rw [Eval.expr_cast, show session.context.registry = session.registry from rfl, hmeasure, hbound,
      Eval.bind_of_ok hlogged, Eval.bind_of_ok hinner]
    simp only [hcast]
    rfl
  unfold quantity
  rw [bind_eq, evaluating, hexpr]
  rfl

variable [ToString ρ]

/-- Statements with legible units keep variables labelled. -/
theorem keepsLabels_stepRelation :
    StepRelationOn Expr.Legible (KeepsLabels : Session π ρ → Session π ρ → Prop) where
  refl := .refl
  trans := .trans
  ticks _ := ⟨rfl, id⟩
  assigns name _ session he := keepsLabels_assign name he session
  renders _ session _ := keepsLabels_evaluating _ session
  emits := keepsLabels_emit
  opens := keepsLabels_openScope
  closes := keepsLabels_closeScope

/-- Labels are faithful.  The text of a unit expression in a program, if nothing
is wrong with it, is read without a complaint as the same unit expression, and
nothing of it is left over.  So in every session that calls with such units lead
to, the label of a variable can be pasted into a cast: that is read without a
complaint, its unit is evaluated to the measure of the variable, label included,
and the variable itself can be cast to it without a complaint. -/
theorem labels_faithful :
    (∀ (unit : UnitExpr) (registry : Registry), unit.Written → (unit.evaluate registry).2 = [] →
      ∀ (name : String) (fuel : Nat),
        let lexed := Source.lex ⟨name, unit.text⟩
        let stream := TokenStream.ofTokens lexed.tokens
        stream.rest.length ≤ fuel →
          lexed.log = ∅ ∧
          ∃ read last, Parse.unitExpr fuel stream = .ok read last ∧ read.erase = unit.erase ∧
            last.rest = []) ∧
    ∀ (source : Source) (limits : Limits) (registry : Registry) (calls : List Call),
      (∀ call ∈ calls, ∀ e ∈ call.exprs, ∀ unit ∈ e.units, unit.Written) →
      let session : Session Heap Pointer :=
        (start source limits registry Heap.empty).performAll calls
      ∀ held ∈ session.scopes.contents, ∀ binding label, held.unit = some binding →
        binding.label = some label → ∀ name file : String, Token.IsName name →
          let pasted : Source := ⟨file, name ++ "[" ++ label ++ "]"⟩
          let parsed := Program.parse pasted pasted.lex.tokens
          pasted.lex.log = ∅ ∧ parsed.log.totalErrors = 0 ∧
          ∃ program unit here span, parsed.program = some program ∧
            program.statements = [.display (.cast (.identifier name here) unit span)] ∧
            unit.evaluate registry = (binding.preferred, []) ∧
            (session.scopes.lookup? name = some held →
              ∃ q, quantity (.cast (.identifier name here) unit span) session =
                  .ok (some q) session ∧
                q.dimension = binding.dimension ∧ q.cast = some binding.preferred) := by
  refine ⟨?_, ?_⟩
  · intro unit registry hwritten hclean name fuel lexed stream hfuel
    have hlegible := hwritten.legible
    obtain ⟨hlog, hread⟩ :=
      UnitExpr.unitExpr_text (hlegible.shaped hclean) (hlegible.writable hclean) name
    exact ⟨hlog, hread hfuel⟩
  · intro source limits registry calls hcalls session held hheld binding label hunit hlabel name
      file hname
    have hlegible : ∀ call ∈ calls, ∀ e ∈ call.exprs, e.Legible :=
      fun call hcall e he unit hunit => (hcalls call hcall e he unit hunit).legible
    have hkept : KeepsLabels (start source limits registry Heap.empty) session :=
      keepsLabels_stepRelation.performAll keepsLabels_evaluating hlegible _
    have hstarted : (Scopes.global : Scopes Pointer).Labelled registry :=
      fun _ hmem => absurd hmem List.not_mem_nil
    have hlabelled : binding.preferred.Labelled registry :=
      hkept.labelled hstarted held hheld binding hunit
    obtain ⟨hlog, herrors, program, unit, here, span, hprogram, hstatements, hmeasure⟩ :=
      hlabelled.parse_cast hlabel hname file
    refine ⟨hlog, herrors, program, unit, here, span, hprogram, hstatements, hmeasure, ?_⟩
    intro hfound
    have hscopes : session.scopes.WellFormed :=
      (wellFormed_invariant (π := Heap)).performAll Scopes.wellFormed_global calls
    refine quantity_cast hfound (hscopes held hheld) hunit ?_ here span
    rw [hkept.registry]
    exact hmeasure

/-- A label with a negative exponent and parentheses is read back, and `x` can be
cast to it. -/
theorem labels_faithful_inverse_volume :
    let source : Source := ⟨"s", "x = 3[m^-2/(km*1)]"⟩
    let label := "m^-2/(km*1)"
    ∃ program, (Program.parse source source.lex.tokens).program = some program ∧
      (∃ unit ∈ program.units, unit.text = label ∧ (unit.evaluate .standard).2 = [] ∧
        ∃ read last,
          Parse.unitExpr 10 (.ofTokens (Source.lex ⟨"label", label⟩).tokens) = .ok read last ∧
          read.erase = unit.erase ∧ last.rest = []) ∧
      let session : Session Heap Pointer :=
        (start source {} .standard Heap.empty).performAll [.execProgram program]
      ∃ held binding, session.scopes.lookup? "x" = some held ∧ held.unit = some binding ∧
        binding.label = some label ∧
        ∃ unit here span q,
          quantity (.cast (.identifier "x" here) unit span) session = .ok (some q) session ∧
          q.cast = some binding.preferred := by
  intro source label
  have hchecked : ((Program.parse source source.lex.tokens).program.any fun program =>
      program.units.any (fun unit => unit.text = label ∧ (unit.evaluate .standard).2.isEmpty) ∧
      let session : Session Heap Pointer :=
        (start source {} .standard Heap.empty).performAll [.execProgram program]
      ((session.scopes.lookup? "x").bind (·.unit)).bind (·.label) = some label) = true := by
    decide +kernel
  obtain ⟨program, hprogram, hchecked⟩ := (Option.any_eq_true _ _).1 hchecked
  obtain ⟨hunits, hlabel⟩ := of_decide_eq_true hchecked
  obtain ⟨unit, hunit, hcheckedUnit⟩ := List.any_eq_true.1 hunits
  obtain ⟨htext, hclean⟩ := of_decide_eq_true hcheckedUnit
  obtain ⟨binding, hbound, hlabel⟩ := Option.bind_eq_some_iff.1 hlabel
  obtain ⟨held, hfound, hheld⟩ := Option.bind_eq_some_iff.1 hbound
  refine ⟨program, hprogram, ⟨unit, hunit, htext, List.isEmpty_iff.1 hclean, ?_⟩, held, binding,
    hfound, hheld, hlabel, ?_⟩
  · have hread := labels_faithful.1 unit .standard ⟨source, program, hprogram, hunit⟩
      (List.isEmpty_iff.1 hclean) "label" 10
    rw [htext] at hread
    exact (hread (by decide +kernel)).2
  · have hwritten : ∀ call ∈ [Call.execProgram program], ∀ e ∈ call.exprs, ∀ unit ∈ e.units,
        unit.Written := by
      intro call hcall e he unit hunit
      rw [List.mem_singleton.1 hcall] at he
      exact ⟨source, program, hprogram, Program.mem_units he hunit⟩
    have hname : Token.IsName "x" :=
      ⟨⟨'x', [], rfl, by decide⟩, List.forall_mem_singleton.2 (by decide), by decide +kernel⟩
    obtain ⟨_, _, _, unit, here, span, _, _, _, hcast⟩ := labels_faithful.2 source {} .standard _
      hwritten held (Scopes.mem_contents_of_lookup? hfound) binding label hheld hlabel "x" "cast"
      hname
    obtain ⟨q, hquantity, _, hpreferred⟩ := hcast hfound
    exact ⟨unit, here, span, q, hquantity, hpreferred⟩

end Session

end UnitScript
