import UnitScript.Proofs.Number.Bounds
import UnitScript.Proofs.Outcome
import UnitScript.Proofs.Session.Numeric
import UnitScript.Proofs.UnitDefects

/-!
# Units that leave the range of reals

A unit with nothing wrong can still be invalid: its scale is computed with reals,
and no complaint is made when that overflows.  It takes large powers to get there,
and how far a unit goes can be read off its text.

* `UnitExpr.Overflows` says that an operator has no scale though its operands have
  one.  There is no other way for a unit with nothing wrong to be invalid, by
  `exists_overflow` and `not_overflows_of_isValid`.
* `UnitExpr.reach` bounds how far the scales of a unit and its parts are from one,
  in bits.  `withinBits_reduce` says that a unit with a reach of at most 1023 bits
  has a scale, and that it is not zero.
* `castValue_isNaN` lists how a cast to such a unit can give what is no number.
* `units_valid_unless_overflow` is the whole statement, for all units and for the
  casts of all scripts that are executed.  `overflow_unreported` is a script that
  is executed although one of its units is invalid.
-/

namespace UnitScript

/-! ## Scales of operators -/

namespace Measure

variable {a b : Measure}

theorem scale_mul (ha : a.isValid = true) (hb : b.isValid = true) :
    (a.mul b).scale = a.scale * b.scale := by
  rw [Measure.mul, ha, hb]
  rfl

theorem scale_div (ha : a.isValid = true) (hb : b.isValid = true) :
    (a.div b).scale = a.scale / b.scale := by
  rw [Measure.div, ha, hb]
  rfl

theorem scale_pow (ha : a.isValid = true) (p : Int) :
    (a.pow p).scale = Number.power a.scale p := by
  rw [Measure.pow, ha]
  rfl

end Measure

namespace UnitExpr

/-! ## Operators that overflow -/

/-- The expression applies an operator to operands with a meaning, and has none
itself. -/
def Overflows (registry : Registry) (unit : UnitExpr) : Prop :=
  ∃ op left right span, unit = .binary op left right span ∧
    (left.reduce registry).1.isValid = true ∧
    (op ≠ .pow → (right.reduce registry).1.isValid = true) ∧
    (unit.reduce registry).1.isValid = false

variable {registry : Registry} {unit : UnitExpr}

/-- A unit with nothing wrong has a meaning, unless one of its operators
overflows. -/
theorem exists_overflow
    (hregistry : ∀ name known, registry.get? name = some known → known.scale.isFinite = true)
    (hclean : (unit.reduce registry).2 = []) (h : (unit.reduce registry).1.isValid = false) :
    ∃ part ∈ unit.parts, part.Overflows registry := by
  induction unit with
  | symbol name span =>
    unfold reduce at hclean h
    cases hknown : registry.get? name with
    | none =>
      rw [hknown] at hclean
      cases hclean
    | some known =>
      rw [hknown] at h
      exact absurd (hregistry name known hknown) (Bool.eq_false_iff.1 h)
  | number value span =>
    obtain rfl := eq_one_of_clean hclean
    exact absurd (Measure.usable_base .dimensionless).valid (Bool.eq_false_iff.1 h)
  | group inner span ih =>
    obtain ⟨part, hpart, hoverflows⟩ := ih hclean h
    exact ⟨part, List.mem_cons_of_mem _ hpart, hoverflows⟩
  | binary op left right span ihl ihr =>
    -- the operator overflows, unless the fault is in one of its operands
    by_cases hleft : (left.reduce registry).1.isValid = true
    · cases op with
      | mul | div =>
        by_cases hright : (right.reduce registry).1.isValid = true
        · exact ⟨_, mem_parts_self _, _, left, right, span, rfl, hleft, fun _ => hright, h⟩
        · obtain ⟨part, hpart, hoverflows⟩ :=
            ihr (List.append_eq_nil_iff.1 hclean).2 (Bool.eq_false_iff.2 hright)
          exact ⟨part, mem_parts_right hpart, hoverflows⟩
      | pow =>
        exact ⟨_, mem_parts_self _, .pow, left, right, span, rfl, hleft, fun h => absurd rfl h, h⟩
    · obtain ⟨part, hpart, hoverflows⟩ :=
        ihl (clean_operands hclean).1 (Bool.eq_false_iff.2 hleft)
      exact ⟨part, mem_parts_left hpart, hoverflows⟩

/-- The exponents of a unit with nothing wrong can be used. -/
theorem exponent_of_clean {left right : UnitExpr} {span : Span}
    (h : ((UnitExpr.binary .pow left right span).reduce registry).2 = []) :
    ∃ p, right.exponent = .ok p := by
  rw [reduce] at h
  cases hexponent : right.exponent with
  | ok p => exact ⟨p, rfl⟩
  | error c =>
    rw [hexponent] at h
    exact absurd h (List.append_ne_nil_of_right_ne_nil _ (List.cons_ne_nil _ _))

theorem not_overflows_number (value : UnitNumber) (span : Span) :
    ¬ (UnitExpr.number value span).Overflows registry := by
  rintro ⟨_, _, _, _, heq, _⟩
  cases heq

/-- No operator of a unit with a meaning overflows: the operands have a meaning too. -/
theorem not_overflows_of_isValid (h : (unit.reduce registry).1.isValid = true) :
    ∀ part ∈ unit.parts, ¬ part.Overflows registry := by
  induction unit with
  | symbol name span =>
    refine List.forall_mem_singleton.2 ?_
    rintro ⟨_, _, _, _, heq, _⟩
    cases heq
  | number value span => exact List.forall_mem_singleton.2 (not_overflows_number value span)
  | group inner span ih =>
    refine List.forall_mem_cons.2 ⟨?_, ih h⟩
    rintro ⟨_, _, _, _, heq, _⟩
    cases heq
  | binary op left right span ihl ihr =>
    refine List.forall_mem_cons.2 ⟨?_, List.forall_mem_append.2 ?_⟩
    · rintro ⟨_, _, _, _, _, _, _, hinvalid⟩
      rw [h] at hinvalid
      cases hinvalid
    · cases op with
      | mul =>
        obtain ⟨hleft, hright⟩ := Measure.isValid_of_mul h
        exact ⟨ihl hleft, ihr hright⟩
      | div =>
        obtain ⟨hleft, hright⟩ := Measure.isValid_of_div h
        exact ⟨ihl hleft, ihr hright⟩
      | pow =>
        obtain ⟨p, hexponent⟩ := exponent_of_clean (clean_of_isValid h)
        obtain ⟨here, rfl, -⟩ := exponent_eq_ok hexponent
        rw [reduce, hexponent] at h
        exact ⟨ihl (Measure.isValid_of_pow h),
          List.forall_mem_singleton.2 (not_overflows_number _ here)⟩

/-! ## Reach -/

/-- How often an exponent takes the unit before it, but at least once. -/
def multiplicity : UnitExpr → Nat
  | .number (.integer p) _ => max 1 p.natAbs
  | _ => 1

/-- How far the scales of a unit and its parts can be from one, in bits, when
`bits` are those of its symbols. -/
def reach (bits : String → Nat) : UnitExpr → Nat
  | .symbol name _ => bits name
  | .number .. => 0
  | .group inner _ => inner.reach bits
  | .binary .mul left right _ => left.reach bits + right.reach bits
  | .binary .div left right _ => left.reach bits + right.reach bits
  | .binary .pow left right _ => left.reach bits * right.multiplicity

open Number (WithinBits)

/-- A unit with nothing wrong that does not reach too far has a scale. -/
theorem withinBits_reduce {bits : String → Nat}
    (hregistry : ∀ name known, registry.get? name = some known →
      WithinBits (bits name) known.scale)
    (hclean : (unit.reduce registry).2 = []) (hreach : unit.reach bits ≤ 1023) :
    WithinBits (unit.reach bits) (unit.reduce registry).1.scale := by
  induction unit with
  | symbol name span =>
    unfold reduce at hclean ⊢
    cases hknown : registry.get? name with
    | none =>
      rw [hknown] at hclean
      cases hclean
    | some known => exact hregistry name known hknown
  | number value span =>
    obtain rfl := eq_one_of_clean hclean
    exact Number.withinBits_one
  | group inner span ih => exact ih hclean hreach
  | binary op left right span ihl ihr =>
    cases op with
    | mul =>
      obtain ⟨hleft, hright⟩ := List.append_eq_nil_iff.1 hclean
      rw [reach] at hreach ⊢
      have ha := ihl hleft (by omega)
      have hb := ihr hright (by omega)
      rw [reduce, Measure.scale_mul ha.isFinite hb.isFinite]
      exact ha.mul hb hreach
    | div =>
      obtain ⟨hleft, hright⟩ := List.append_eq_nil_iff.1 hclean
      rw [reach] at hreach ⊢
      have ha := ihl hleft (by omega)
      have hb := ihr hright (by omega)
      rw [reduce, Measure.scale_div ha.isFinite hb.isFinite]
      exact ha.div hb hreach
    | pow =>
      obtain ⟨p, hexponent⟩ := exponent_of_clean hclean
      obtain ⟨here, rfl, -⟩ := exponent_eq_ok hexponent
      rw [reach, multiplicity] at hreach ⊢
      have hbase := ihl (clean_operands hclean).1
        ((Nat.le_mul_of_pos_right _ (by omega)).trans hreach)
      have hle : left.reach bits * p.natAbs ≤ left.reach bits * max 1 p.natAbs :=
        Nat.mul_le_mul_left _ (le_max_right _ _)
      rw [reduce, hexponent, Measure.scale_pow hbase.isFinite]
      exact (hbase.power (hle.trans hreach)).mono hle

/-- The label does not change the scale. -/
theorem scale_evaluate (registry : Registry) (unit : UnitExpr) :
    (unit.evaluate registry).1.scale = (unit.reduce registry).1.scale := by
  rw [evaluate_eq]
  split <;> rfl

theorem isValid_evaluate (registry : Registry) (unit : UnitExpr) :
    (unit.evaluate registry).1.isValid = (unit.reduce registry).1.isValid :=
  congrArg Float.isFinite (scale_evaluate registry unit)

end UnitExpr

/-! ## Standard units -/

namespace Registry

/-- The bits that the scales of the standard units are within. -/
def lengthBits : String → Nat
  | "mm" => 10
  | "cm" => 7
  | "m" => 0
  | "km" => 10
  | "in" => 6
  | "ft" => 2
  | "yd" => 1
  | "mi" => 11
  | _ => 0

open Number (WithinBits withinBits_ofScientific)

/-- A unit that is found is one of those registered, or was there before. -/
theorem mem_of_get?_foldl {units : List (String × Float)} {registry : Registry} {name : String}
    {known : UnitDef}
    (h : (units.foldl (fun registry (symbol, scale) => register registry symbol
      ⟨scale, .oneLength⟩) registry).get? name = some known) :
    (name, known.scale) ∈ units ∨ registry.get? name = some known := by
  induction units generalizing registry with
  | nil => exact .inr h
  | cons unit later ih =>
    rcases ih h with hlater | hhere
    · exact .inl (List.mem_cons_of_mem _ hlater)
    · simp only [register, Table.get?_insert] at hhere
      split at hhere
      · next heq =>
          cases hhere
          rw [heq]
          exact .inl List.mem_cons_self
      · exact .inr hhere

theorem withinBits_lengths : ∀ unit ∈ lengths, WithinBits (lengthBits unit.1) unit.2 := by
  unfold lengths
  simp only [List.forall_mem_cons, List.not_mem_nil, false_implies, implies_true, and_true]
  refine ⟨withinBits_ofScientific 1 three_pos ?_ ?_ ?_, withinBits_ofScientific 1 two_pos ?_ ?_ ?_,
    Number.withinBits_one, withinBits_ofScientific 10000 one_pos ?_ ?_ ?_,
    withinBits_ofScientific 254 four_pos ?_ ?_ ?_, withinBits_ofScientific 3048 four_pos ?_ ?_ ?_,
    withinBits_ofScientific 9144 four_pos ?_ ?_ ?_,
    withinBits_ofScientific 1609344 three_pos ?_ ?_ ?_⟩ <;>
    norm_num [lengthBits]

theorem withinBits_standard (name : String) (known : UnitDef)
    (h : standard.get? name = some known) : WithinBits (lengthBits name) known.scale := by
  rcases mem_of_get?_foldl h with hmem | hempty
  · exact withinBits_lengths _ hmem
  · cases hempty

end Registry

/-! ## Casts -/

/-- What a cast to a measure in range reads is no number for one of these reasons:
what is cast is none or not a number itself, or it has a unit of another dimension,
and then there is a warning. -/
theorem Evaluated.castValue_isNaN {ρ : Type} {measure : Measure} {bits : Nat}
    (hscale : Number.WithinBits bits measure.scale) (unit : UnitExpr) (bound : Option Binding)
    (inner : Evaluated ρ) {x : Float} (hread : (inner.castValue measure unit bound).1 = .real x)
    (hnan : x.isNaN = true) :
    inner.value.number? = none ∨ inner.value = .real x ∨
      (∃ b, bound = some b ∧ b.si.isNaN = true) ∨
      ∃ b, bound = some b ∧ b.dimension ≠ measure.dimension ∧
        (inner.castValue measure unit bound).2 =
          [.castMismatch b.dimension unit measure.dimension] := by
  cases hnumber : inner.value.number? with
  | none => exact .inl rfl
  | some n =>
    right
    have hread' : ¬ (!measure.isValid || inner.value.number?.isNone) = true := by
      rw [hnumber, show measure.isValid = true from hscale.isFinite]
      exact Bool.false_ne_true
    unfold castValue at hread ⊢
    rw [if_neg hread'] at hread ⊢
    cases bound with
    | none => exact .inl hread
    | some b =>
      right
      by_cases hdimension : b.dimension = measure.dimension
      · refine .inl ⟨b, rfl, hscale.isNaN_div ?_⟩
        simp only [Measure.ofSI, if_pos hdimension] at hread
        rwa [Value.real.inj hread]
      · exact .inr ⟨b, rfl, hdimension, if_neg hdimension⟩

namespace Session

/-- A cast to a unit with nothing wrong gives what is read in the unit, and logs
what is wrong with that. -/
theorem evaluate_cast {session session' : Session Heap Pointer} {value : Expr} {v : Value Pointer}
    {unit : UnitExpr} (span : Span) (hclean : (unit.evaluate session.registry).2 = [])
    (h : evaluate value session = .ok v session') :
    ∃ (inner : Evaluated Pointer) (read : Value Pointer × List Problem), inner.value = v ∧
      read = inner.castValue (unit.evaluate session.registry).1 unit
        (session.context.binding? value) ∧
      evaluate (.cast value unit span) session = .ok read.1 { session' with
        store := { session'.store with
          log := session'.store.log.complainAll session.source (read.2.map (⟨·, span⟩)) } } := by
  obtain ⟨inner, store, hinner, rfl, rfl⟩ := evaluate_eq_ok.mp h
  have hsilent : Eval.complain session.context (unit.evaluate session.context.registry).2
      session.store = .ok () session.store := by
    rw [show session.context.registry = session.registry from rfl, hclean]
    rfl
  refine ⟨inner, _, rfl, rfl, evaluate_eq_ok.mpr ?_⟩
  rw [Eval.expr_cast, Eval.bind_of_ok hsilent, Eval.bind_of_ok hinner]
  exact ⟨_, _, rfl, rfl, rfl⟩

end Session

/-! ## Units of scripts that are executed -/

/-- What is wrong with a unit of an expression is found by the check. -/
theorem Expr.mem_unitComplaints {registry : Registry} {e : Expr} {unit : UnitExpr}
    (hunit : unit ∈ e.units) {c : Complaint} (hc : c ∈ (unit.evaluate registry).2) :
    c ∈ e.unitComplaints registry := by
  induction e with
  | literal value span => cases hunit
  | identifier name span => cases hunit
  | negate operand span ih => exact ih hunit
  | binary op left right span ihl ihr =>
    rcases List.mem_append.1 hunit with hleft | hright
    · exact List.mem_append_left _ (ihl hleft)
    · exact List.mem_append_right _ (ihr hright)
  | cast value unit span ih =>
    rcases List.mem_append.1 hunit with hvalue | hhere
    · exact List.mem_append_left _ (ih hvalue)
    · cases List.mem_singleton.1 hhere
      exact List.mem_append_right _ hc
  | paren inner span ih => exact ih hunit

mutual

theorem Stmt.mem_unitComplaints {registry : Registry} (statement : Stmt) {e : Expr}
    (he : e ∈ statement.exprs) {c : Complaint} (hc : c ∈ e.unitComplaints registry) :
    c ∈ statement.unitComplaints registry := by
  cases statement with
  | assign target value span =>
    rw [Stmt.exprs] at he
    rw [Stmt.unitComplaints]
    cases List.mem_singleton.1 he
    exact hc
  | display value =>
    rw [Stmt.exprs] at he
    rw [Stmt.unitComplaints]
    cases List.mem_singleton.1 he
    exact hc
  | block body span =>
    rw [Stmt.exprs] at he
    rw [Stmt.unitComplaints]
    exact Stmt.mem_allUnitComplaints body he hc

theorem Stmt.mem_allUnitComplaints {registry : Registry} (statements : List Stmt) {e : Expr}
    (he : e ∈ Stmt.allExprs statements) {c : Complaint} (hc : c ∈ e.unitComplaints registry) :
    c ∈ Stmt.allUnitComplaints registry statements := by
  cases statements with
  | nil =>
    rw [Stmt.allExprs] at he
    cases he
  | cons statement later =>
    rw [Stmt.allExprs] at he
    rw [Stmt.allUnitComplaints]
    rcases List.mem_append.1 he with hhere | hlater
    · exact List.mem_append_left _ (Stmt.mem_unitComplaints statement hhere hc)
    · exact List.mem_append_right _ (Stmt.mem_allUnitComplaints later hlater hc)

end

/-- Nothing is wrong with the units of a script that is executed. -/
theorem Source.clean_of_executed {source : Source} {limits : Limits} {program : Program}
    (hprogram : (Program.parse source source.lex.tokens).program = some program)
    (hexecuted : (source.run limits).executed = true) {e : Expr}
    (he : e ∈ Stmt.allExprs program.statements) {unit : UnitExpr} (hunit : unit ∈ e.units) :
    (unit.evaluate .standard).2 = [] := by
  have haccepted : ¬ source.Rejected := by
    rw [← source.executed_run_eq_false limits, hexecuted]
    exact nofun
  have hfound : (program.check .standard source).totalErrors = 0 := by
    by_contra hsome
    exact haccepted (.inr (.inr ⟨program, hprogram,
      Diagnostics.hasErrors_eq_true.2 (Nat.pos_of_ne_zero hsome)⟩))
  rw [program.totalErrors_check] at hfound
  refine List.eq_nil_iff_forall_not_mem.2 fun c hc => ?_
  have hcount := List.countP_eq_zero.1 hfound c
    (Stmt.mem_allUnitComplaints _ he (Expr.mem_unitComplaints hunit hc))
  rw [UnitExpr.complaints_evaluate] at hc
  exact hcount (decide_eq_true (severity_of_reports (unit.reports_reduce .standard) c hc))

namespace Session

/-- A unit that nothing is reported about is valid exactly if none of its operators
overflows, and none does if the unit has a reach of at most 1023 bits.  Nothing is
reported about the units of a script that is executed.  In any session with the
standard units, a cast to one of them within that reach has a value if what is cast
has one.  If this is not a number, then what is cast is none or not a number
already, or it has a unit of another dimension, and there is a warning. -/
theorem units_valid_unless_overflow (unit : UnitExpr) :
    ((unit.evaluate .standard).2 = [] →
      ((unit.evaluate .standard).1.isValid = true ↔
        ∀ part ∈ unit.parts, ¬ part.Overflows .standard) ∧
      (unit.reach Registry.lengthBits ≤ 1023 → (unit.evaluate .standard).1.isValid = true)) ∧
    ∀ (source : Source) (limits : Limits) (program : Program),
      (Program.parse source source.lex.tokens).program = some program →
      (source.run limits).executed = true →
      ∀ e ∈ Stmt.allExprs program.statements, unit ∈ e.units →
        (unit.evaluate .standard).2 = [] ∧
        (unit.reach Registry.lengthBits ≤ 1023 →
          ∀ (session session' : Session Heap Pointer) (value : Expr) (span : Span)
            (v : Value Pointer), session.registry = .standard →
            evaluate value session = .ok v session' →
            ∃ (read : Value Pointer) (warnings : List Complaint),
              evaluate (.cast value unit span) session = .ok read { session' with
                store := { session'.store with
                  log := session'.store.log.complainAll session.source warnings } } ∧
              ∀ x, read = .real x → x.isNaN = true →
                v.number? = none ∨ v = .real x ∨
                (∃ b, session.context.binding? value = some b ∧ b.si.isNaN = true) ∨
                ∃ b, session.context.binding? value = some b ∧
                  b.dimension ≠ (unit.evaluate .standard).1.dimension ∧
                  warnings = [⟨.castMismatch b.dimension unit
                    (unit.evaluate .standard).1.dimension, span⟩]) := by
  have hreach (hclean : (unit.evaluate .standard).2 = [])
      (h : unit.reach Registry.lengthBits ≤ 1023) :
      Number.WithinBits (unit.reach Registry.lengthBits) (unit.evaluate .standard).1.scale := by
    rw [UnitExpr.complaints_evaluate] at hclean
    rw [UnitExpr.scale_evaluate]
    exact UnitExpr.withinBits_reduce Registry.withinBits_standard hclean h
  constructor
  · intro hclean
    refine ⟨?_, fun h => (hreach hclean h).isFinite⟩
    rw [UnitExpr.complaints_evaluate] at hclean
    rw [UnitExpr.isValid_evaluate]
    refine ⟨UnitExpr.not_overflows_of_isValid, fun hnone => ?_⟩
    by_contra hinvalid
    obtain ⟨part, hpart, hoverflows⟩ := UnitExpr.exists_overflow
      (fun name known hknown => (Registry.withinBits_standard name known hknown).isFinite) hclean
      (Bool.eq_false_iff.2 hinvalid)
    exact hnone part hpart hoverflows
  · intro source limits program hprogram hexecuted e he hunit
    have hclean := Source.clean_of_executed hprogram hexecuted he hunit
    refine ⟨hclean, ?_⟩
    intro h session session' value span v hregistry hvalue
    obtain ⟨inner, read, rfl, hread, hcast⟩ := evaluate_cast span (hregistry ▸ hclean) hvalue
    refine ⟨read.1, _, hcast, fun x hx hnan => ?_⟩
    rw [hregistry] at hread
    subst hread
    rcases inner.castValue_isNaN (hreach hclean h) unit _ hx hnan with
      hnone | hsame | hbinding | ⟨b, hb, hdimension, hwarning⟩
    · exact .inl hnone
    · exact .inr (.inl hsame)
    · exact .inr (.inr (.inl hbinding))
    · refine .inr (.inr (.inr ⟨b, hb, hdimension, ?_⟩))
      rw [hwarning]
      rfl

/-- The 93rd power of a mile is just within reach. -/
theorem units_valid_unless_overflow_mile :
    let here : Span := .point ⟨1, 1⟩
    let unit : UnitExpr := .join .pow (.symbol "mi" here) (.number (.integer 93) here)
    unit.reach Registry.lengthBits = 1023 ∧ (unit.evaluate .standard).2 = [] ∧
      (unit.evaluate .standard).1.isValid = true := by
  intro here unit
  have hreach : unit.reach Registry.lengthBits = 1023 := by decide
  have hclean : (unit.evaluate .standard).2 = [] := by decide +kernel
  exact ⟨hreach, hclean, ((units_valid_unless_overflow unit).1 hclean).2 hreach.le⟩

/-- The 97th power of a mile has no scale, and so a quotient of two powers that is
one mile long is invalid.  Nothing is reported about it, and the script is executed:
what it displays is not a number.  The 400th power of a millimetre has the scale
zero, and a length in it cannot be read in the same unit. -/
theorem overflow_unreported :
    (∃ unit : UnitExpr, unit.Written ∧ (unit.evaluate .standard).2 = [] ∧
      (unit.evaluate .standard).1.isValid = false) ∧
    (⟨"", "5[mi^97/mi^96]"⟩ : Source).run {} = ⟨"", true, ["NaN"], ∅, [], none, 1⟩ ∧
    (⟨"", "x = 0[mm^400]\nx[mm^400]"⟩ : Source).run {} =
      ⟨"", true, ["NaN mm^400"], ∅, [⟨"x", "0", some "mm^400"⟩], none, 2⟩ := by
  let source : Source := ⟨"", "5[mi^97/mi^96]"⟩
  have hfound : (Program.parse source source.lex.tokens).program.map (fun program =>
      program.units.any fun unit =>
        (unit.evaluate .standard).2 = [] ∧ (unit.evaluate .standard).1.isValid = false) =
      some true := by
    decide +kernel
  obtain ⟨program, hprogram, hany⟩ := Option.map_eq_some_iff.1 hfound
  obtain ⟨unit, hunit, hinvalid⟩ := List.any_eq_true.1 hany
  exact ⟨⟨unit, ⟨source, program, hprogram, hunit⟩, of_decide_eq_true hinvalid⟩,
    by decide +kernel, by decide +kernel⟩

end Session

end UnitScript
