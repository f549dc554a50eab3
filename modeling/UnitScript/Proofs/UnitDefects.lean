import UnitScript.Proofs.Grammar.Nesting
import UnitScript.Proofs.Session.Logging
import UnitScript.Proofs.UnitLabels

/-!
# Defects of unit expressions

What is wrong with a unit expression can be read off its leaves: the names and
numbers that stand for units, and the exponents.  Each of them is judged by
itself, whatever stands around it, and a single defect makes the whole unit
invalid.

* `UnitExpr.places` lists what is judged, from left to right, `Place.defect?` is
  the judgement and `UnitExpr.defects` are those that fail it.
* `reports_reduce` says that a unit expression is complained about once for each
  defect, and `reduce_of_complaints` that a complaint makes it invalid.
* `Nests.places` says that what is judged stands in order in the text, if the
  spans of the unit nest; those of all units of programs do, `Written.nests`.
* `unit_defects_reported_once` is the whole statement.
-/

namespace UnitScript

/-! ## Places and defects -/

namespace UnitExpr

/-- A part of a unit expression that is judged by itself. -/
inductive Place where
  | symbol (name : String) (span : Span)
  | number (value : UnitNumber) (span : Span)
  | exponent (unit : UnitExpr)

/-- Where it stands. -/
def Place.span : Place → Span
  | .symbol _ span => span
  | .number _ span => span
  | .exponent unit => unit.span

/-- What is judged, from left to right.  Nothing inside of an exponent is. -/
def places : UnitExpr → List Place
  | .symbol name span => [.symbol name span]
  | .number value span => [.number value span]
  | .group inner _ => inner.places
  | .binary .mul left right _ => left.places ++ right.places
  | .binary .div left right _ => left.places ++ right.places
  | .binary .pow left right _ => left.places ++ [.exponent right]

/-- The code of what is wrong: a symbol must be registered, the only number that
is a unit is the integer one, and an exponent must be an integer of 32 bits. -/
def Place.defect? (registry : Registry) : Place → Option Code
  | .symbol name _ => if registry.get? name = none then some .unknownUnit else none
  | .number value _ => if value = .integer 1 then none else some .bareNumberInUnit
  | .exponent (.number (.integer n) _) =>
      if -2 ^ 31 ≤ n ∧ n ≤ 2 ^ 31 - 1 then none else some .nonIntegerExponent
  | .exponent (.number (.real _) _) => some .nonIntegerExponent
  | .exponent _ => some .nonLiteralExponent

/-- The defects among places, with where they stand. -/
def defectsOf (registry : Registry) (places : List Place) : List (Code × Span) :=
  places.filterMap fun place => (place.defect? registry).map fun code => (code, place.span)

/-- All that is wrong with a unit expression, from left to right. -/
def defects (registry : Registry) (unit : UnitExpr) : List (Code × Span) :=
  defectsOf registry unit.places

theorem defectsOf_append (registry : Registry) (first later : List Place) :
    defectsOf registry (first ++ later) = defectsOf registry first ++ defectsOf registry later :=
  List.filterMap_append

theorem defectsOf_singleton (registry : Registry) (place : Place) :
    defectsOf registry [place] =
      ((place.defect? registry).map fun code => (code, place.span)).toList := by
  rw [defectsOf, List.filterMap_cons]
  cases place.defect? registry <;> rfl

end UnitExpr

/-- The complaint is an error about this defect. -/
structure Complaint.Reports (c : Complaint) (defect : Code × Span) : Prop where
  severity : c.problem.severity = .error
  code : c.problem.code = defect.1
  span : c.span = defect.2

/-- Complaints about defects are all errors. -/
theorem severity_of_reports {complaints : List Complaint} {defects : List (Code × Span)}
    (h : List.Forall₂ Complaint.Reports complaints defects) :
    ∀ c ∈ complaints, c.problem.severity = .error :=
  ((List.forall₂_and_left _ _).1 (h.imp fun _ _ hreport => ⟨hreport.severity, hreport⟩)).1

/-! ## One complaint for each defect -/

namespace UnitExpr

variable {registry : Registry} {unit : UnitExpr}

/-- An exponent is used, or there is one complaint about it. -/
theorem exponent_cases (registry : Registry) (unit : UnitExpr) :
    (∃ p, unit.exponent = .ok p ∧ (Place.exponent unit).defect? registry = none) ∨
      ∃ c code, unit.exponent = .error c ∧ (Place.exponent unit).defect? registry = some code ∧
        c.Reports (code, unit.span) := by
  cases unit with
  | number value span =>
    cases value with
    | integer n =>
      have hrange : Dimension.isExponent n = true ↔ -2 ^ 31 ≤ n ∧ n ≤ 2 ^ 31 - 1 := by
        unfold Dimension.isExponent Dimension.least Dimension.greatest
        rw [decide_eq_true_iff]
        omega
      unfold exponent Place.defect?
      by_cases hsmall : Dimension.isExponent n = true
      · exact .inl ⟨n, if_pos hsmall, if_pos (hrange.1 hsmall)⟩
      · exact .inr ⟨_, _, if_neg hsmall, if_neg fun h => hsmall (hrange.2 h), rfl, rfl, rfl⟩
    | real x => exact .inr ⟨_, _, rfl, rfl, rfl, rfl, rfl⟩
  | symbol name span => exact .inr ⟨_, _, rfl, rfl, rfl, rfl, rfl⟩
  | binary op left right span => exact .inr ⟨_, _, rfl, rfl, rfl, rfl, rfl⟩
  | group inner span => exact .inr ⟨_, _, rfl, rfl, rfl, rfl, rfl⟩

/-- There is one complaint for each defect, in the same order, and no other. -/
theorem reports_reduce (registry : Registry) (unit : UnitExpr) :
    List.Forall₂ Complaint.Reports (unit.reduce registry).2 (unit.defects registry) := by
  unfold defects
  induction unit with
  | symbol name span =>
    rw [places, defectsOf_singleton, Place.defect?, reduce]
    cases registry.get? name with
    | some unit => exact .nil
    | none => exact .cons ⟨rfl, rfl, rfl⟩ .nil
  | number value span =>
    rw [places, defectsOf_singleton, Place.defect?, reduce_number]
    split
    · exact .nil
    · exact .cons ⟨rfl, rfl, rfl⟩ .nil
  | group inner span ih => exact ih
  | binary op left right span ihl ihr =>
    cases op with
    | mul | div =>
      rw [places, defectsOf_append]
      exact List.rel_append ihl ihr
    | pow =>
      rw [places, defectsOf_append, defectsOf_singleton, reduce]
      obtain ⟨p, hexponent, hdefect⟩ | ⟨c, code, hexponent, hdefect, hreports⟩ :=
        exponent_cases registry right
      · rw [hexponent, hdefect]
        simpa using ihl
      · rw [hexponent, hdefect]
        exact List.rel_append ihl (.cons hreports .nil)

/-! ## A complaint makes the unit invalid -/

/-- A unit expression that is complained about has no meaning. -/
theorem not_isValid_of_complaints (h : (unit.reduce registry).2 ≠ []) :
    (unit.reduce registry).1.isValid = false :=
  Bool.eq_false_iff.2 fun hvalid => h (clean_of_isValid hvalid)

/-- A unit expression that is complained about is invalid, at whatever depth the
defect is: no operator makes sense of an operand that has none. -/
theorem reduce_of_complaints (h : (unit.reduce registry).2 ≠ []) :
    (unit.reduce registry).1 = .invalid := by
  induction unit with
  | symbol name span =>
    unfold reduce at h ⊢
    split
    · next hknown =>
        rw [hknown] at h
        exact absurd rfl h
    · rfl
  | number value span =>
    rw [reduce_number] at h ⊢
    split
    · next hone =>
        rw [if_pos hone] at h
        exact absurd rfl h
    · rfl
  | group inner span ih => exact ih h
  | binary op left right span _ _ =>
    cases op with
    | mul | div =>
      have hoperands : ((left.reduce registry).1.isValid &&
          (right.reduce registry).1.isValid) = false := by
        rw [Bool.and_eq_false_iff]
        by_cases hleft : (left.reduce registry).2 = []
        · refine .inr (not_isValid_of_complaints fun hright => h ?_)
          exact List.append_eq_nil_iff.2 ⟨hleft, hright⟩
        · exact .inl (not_isValid_of_complaints hleft)
      exact if_neg (Bool.eq_false_iff.1 hoperands)
    | pow =>
      rw [reduce] at h ⊢
      cases hexponent : right.exponent with
      | ok p =>
        rw [hexponent] at h
        exact if_neg (Bool.eq_false_iff.1 (not_isValid_of_complaints h))
      | error c => rfl

theorem evaluate_of_complaints (h : (unit.evaluate registry).2 ≠ []) :
    (unit.evaluate registry).1 = .invalid := by
  rw [complaints_evaluate] at h
  have hinvalid := reduce_of_complaints h
  rw [evaluate_eq, hinvalid, if_neg (by decide), hinvalid]

end UnitExpr

/-! ## The order of the text -/

namespace Span

variable {span a b : Span} {parts later : List Span}

theorem Encloses.singleton (h : span.Encloses []) : span.Encloses [span] :=
  ⟨h.ordered, List.forall_mem_singleton.2 ⟨Position.le_refl _, Position.le_refl _⟩,
    List.pairwise_singleton _ _⟩

/-- The parts of a part are parts of the whole. -/
theorem Encloses.inner (h : span.Encloses [a]) (ha : a.Encloses parts) : span.Encloses parts := by
  obtain ⟨hfirst, hlast⟩ := h.covers a List.mem_cons_self
  refine ⟨h.ordered, fun part hpart => ?_, ha.inOrder⟩
  obtain ⟨hstarts, hends⟩ := ha.covers part hpart
  exact ⟨Position.le_trans hfirst hstarts, Position.le_trans hends hlast⟩

/-- So are those of two parts. -/
theorem Encloses.append (h : span.Encloses [a, b]) (ha : a.Encloses parts)
    (hb : b.Encloses later) : span.Encloses (parts ++ later) := by
  obtain ⟨hlt, hsingle⟩ := List.pairwise_cons.1 h.inOrder
  have hleft : span.Encloses [a] :=
    ⟨h.ordered, List.forall_mem_singleton.2 (h.covers a List.mem_cons_self),
      List.pairwise_singleton _ _⟩
  have hright : span.Encloses [b] :=
    ⟨h.ordered, fun part hpart => h.covers part (List.mem_cons_of_mem _ hpart), hsingle⟩
  refine ⟨h.ordered, List.forall_mem_append.2 ⟨(hleft.inner ha).covers, (hright.inner hb).covers⟩,
    List.pairwise_append.2 ⟨ha.inOrder, hb.inOrder, fun part hpart other hother => ?_⟩⟩
  -- a part on the left ends before the left side does, and the right side starts behind that
  exact Position.lt_of_le_of_lt (ha.covers part hpart).2
    (Position.lt_of_lt_of_le (hlt b (List.mem_singleton_self b)) (hb.covers other hother).1)

end Span

namespace UnitExpr

variable {unit : UnitExpr}

theorem Nests.encloses_nil (h : unit.Nests) : unit.span.Encloses [] := by
  have hordered : unit.span.first ≤ unit.span.last := by
    cases unit with
    | symbol name span => exact h.ordered
    | number value span => exact h.ordered
    | binary op left right span => exact h.2.2.ordered
    | group inner span => exact h.2.ordered
  exact ⟨hordered, nofun, .nil⟩

/-- What is judged stands in order, inside the unit expression. -/
theorem Nests.places (h : unit.Nests) : unit.span.Encloses (unit.places.map Place.span) := by
  induction unit with
  | symbol name span => exact h.singleton
  | number value span => exact h.singleton
  | group inner span ih => exact h.2.inner (ih h.1)
  | binary op left right span ihl ihr =>
    obtain ⟨hleft, hright, hspan⟩ := h
    cases op with
    | mul | div =>
      rw [UnitExpr.places, List.map_append]
      exact hspan.append (ihl hleft) (ihr hright)
    | pow =>
      rw [UnitExpr.places, List.map_append]
      exact hspan.append (ihl hleft) hright.encloses_nil.singleton

/-- Defects stand where something is judged. -/
theorem defectsOf_spans (registry : Registry) (places : List Place) :
    ((defectsOf registry places).map Prod.snd).Sublist (places.map Place.span) := by
  induction places with
  | nil => exact .slnil
  | cons place later ih =>
    rw [defectsOf, List.filterMap_cons]
    cases place.defect? registry with
    | none => exact ih.cons _
    | some code => exact ih.cons_cons _

/-- Each defect ends before the next one starts. -/
theorem Nests.defects (h : unit.Nests) (registry : Registry) :
    (unit.defects registry).Pairwise fun defect later => defect.2.last < later.2.first :=
  List.pairwise_map.1 (h.places.inOrder.sublist (defectsOf_spans registry unit.places))

theorem Nests.part {part : UnitExpr} (h : unit.Nests) (hpart : part ∈ unit.parts) :
    part.Nests := by
  induction unit with
  | symbol name span =>
    cases List.mem_singleton.1 hpart
    exact h
  | number value span =>
    cases List.mem_singleton.1 hpart
    exact h
  | group inner span ih =>
    rcases List.mem_cons.1 hpart with rfl | hinner
    · exact h
    · exact ih h.1 hinner
  | binary op left right span ihl ihr =>
    rcases List.mem_cons.1 hpart with rfl | hinner
    · exact h
    · rcases List.mem_append.1 hinner with hleft | hright
      · exact ihl h.1 hleft
      · exact ihr h.2.1 hright

end UnitExpr

/-! ## Units of programs -/

theorem Expr.Nests.unit {e : Expr} (h : e.Nests) {unit : UnitExpr} (hunit : unit ∈ e.units) :
    unit.Nests := by
  induction e with
  | literal value span => cases hunit
  | identifier name span => cases hunit
  | negate operand span ih => exact ih h.1 hunit
  | binary op left right span ihl ihr =>
    rcases List.mem_append.1 hunit with hleft | hright
    · exact ihl h.1 hleft
    · exact ihr h.2.1 hright
  | cast value unit span ih =>
    rcases List.mem_append.1 hunit with hvalue | hhere
    · exact ih h.1 hvalue
    · cases List.mem_singleton.1 hhere
      exact h.2.1
  | paren inner span ih => exact ih h.1 hunit

mutual

theorem Stmt.Nests.expr {statement : Stmt} (h : statement.Nests) {e : Expr}
    (he : e ∈ statement.exprs) : e.Nests := by
  cases h with
  | assign htarget hvalue hspan =>
    rw [Stmt.exprs] at he
    cases List.mem_singleton.1 he
    exact hvalue
  | display hvalue hspan =>
    rw [Stmt.exprs] at he
    cases List.mem_singleton.1 he
    exact hvalue
  | block hbody hspan =>
    rw [Stmt.exprs] at he
    exact Stmt.nests_allExprs _ hbody he

theorem Stmt.nests_allExprs (statements : List Stmt)
    (h : ∀ statement ∈ statements, statement.Nests) {e : Expr}
    (he : e ∈ Stmt.allExprs statements) : e.Nests := by
  cases statements with
  | nil =>
    rw [Stmt.allExprs] at he
    cases he
  | cons statement later =>
    rw [Stmt.allExprs] at he
    rcases List.mem_append.1 he with hhere | hlater
    · exact (h statement List.mem_cons_self).expr hhere
    · exact Stmt.nests_allExprs later
        (fun other hmem => h other (List.mem_cons_of_mem _ hmem)) hlater

end

/-- The spans of all that is read of a source nest. -/
theorem Program.nests_statements {source : Source} {program : Program}
    (h : (parse source source.lex.tokens).program = some program) :
    ∀ statement ∈ program.statements, statement.Nests := by
  let s := (TokenStream.ofTokens source.lex.tokens).skipNewlines
  have hcovers : source.Covers s.span :=
    (TokenStream.within_ofTokens source.covers_origin fun _ => source.covers_lex).skipNewlines.span
  have hrest : s.rest.Sublist source.lex.tokens :=
    (List.dropWhile_sublist _).trans (List.takeWhile_sublist _)
  have hafter := TokenStream.after_front (source.inOrder_lex.of_sublist hrest) hcovers.firstColumn
  have hfound := Reading.found_statements source (s.rest.length + 1) false s.span.first.front
    maxNesting ⟨s, ∅⟩ hafter
  unfold parse at h
  simp only at h
  split at h <;> cases h
  exact hfound.nests

/-- The spans of the units of programs nest. -/
theorem UnitExpr.Written.nests {unit : UnitExpr} (h : unit.Written) : unit.Nests := by
  obtain ⟨source, program, hprogram, hunit⟩ := h
  obtain ⟨e, he, hparts⟩ := List.mem_flatMap.1 hunit
  obtain ⟨whole, hwhole, hpart⟩ := List.mem_flatMap.1 hparts
  have hexpr := Stmt.nests_allExprs program.statements (Program.nests_statements hprogram) he
  exact (hexpr.unit hwhole).part hpart

namespace Session

/-- In every session and with every registry, one error is reported for each
defect of a unit expression, in this order, and nothing else happens.  The defects
of a unit that stands in a program are in the order of its text.  If there is an
error at all, the unit has the invalid measure: its scale is not a number, and it
has no dimension and no label. -/
theorem unit_defects_reported_once (session : Session Heap Pointer) (unit : UnitExpr) :
    ∃ (m : Measure) (complaints : List Complaint) (log : Diagnostics),
      measure unit session = .ok m { session with store := { session.store with log := log } } ∧
      log = session.store.log.complainAll session.source complaints ∧
      log.totalErrors = session.store.log.totalErrors + (unit.defects session.registry).length ∧
      List.Forall₂ Complaint.Reports complaints (unit.defects session.registry) ∧
      (unit.Written → (unit.defects session.registry).Pairwise
        fun defect later => defect.2.last < later.2.first) ∧
      (complaints ≠ [] →
        m.scale.isNaN = true ∧ m.dimension = .dimensionless ∧ m.label = none ∧ m = .invalid) := by
  have hreports : List.Forall₂ Complaint.Reports (unit.evaluate session.registry).2
      (unit.defects session.registry) := by
    rw [UnitExpr.complaints_evaluate]
    exact unit.reports_reduce session.registry
  refine ⟨(unit.evaluate session.registry).1, (unit.evaluate session.registry).2,
    session.store.log.complainAll session.source (unit.evaluate session.registry).2, rfl, rfl, ?_,
    hreports, fun h => h.nests.defects session.registry, fun h => ?_⟩
  · rw [Diagnostics.totalErrors_complainAll, errorCount_of_errors (severity_of_reports hreports),
      hreports.length_eq]
  · rw [UnitExpr.evaluate_of_complaints h]
    exact ⟨by decide, rfl, rfl, rfl⟩

/-- An unknown unit is wrong even if its power is taken out of the result by an
exponent of zero, and a name in parentheses is no exponent, known or not. -/
example :
    let here : Span := .point ⟨1, 1⟩
    let unknown : UnitExpr := .join .pow (.symbol "furlong" here) (.number (.integer 0) here)
    let power : UnitExpr := .join .pow (.symbol "m" here) (.group (.symbol "cubit" here) here)
    (UnitExpr.join .div unknown power).defects .standard =
      [(.unknownUnit, here), (.nonLiteralExponent, here)] := by
  decide

end Session

end UnitScript
