import UnitScript.Proofs.Grammar.UnitText
import UnitScript.Proofs.Session.Bindings

/-!
# Units and their labels

A measure is labelled with the text of the unit expression it comes from, so
the label can stand for the expression: it is read as an expression of the same
measure.

* `clean_of_isValid` says that a unit expression with a meaning has nothing
  wrong with it, and `writable_of_clean` that nothing in it is lost in its text.
* `evaluate_congr` says that spans do not matter to the meaning.
* `Legible` is what is known of the unit expressions of programs, `Written.legible`.
* `exists_part_of_label` says that a label is the text of the unit expression or,
  with the measure of plain numbers, of the name inside its parentheses.
* `parse_cast` reads the text of a cast to a unit.
-/

namespace UnitScript

open Grammar

namespace Measure

theorem not_isValid_invalid : ¬ invalid.isValid = true := by decide

theorem isValid_of_mul {a b : Measure} (h : (a.mul b).isValid = true) :
    a.isValid = true ∧ b.isValid = true := by
  unfold Measure.mul at h
  split at h
  · next hboth => exact Bool.and_eq_true_iff.1 hboth
  · exact absurd h not_isValid_invalid

theorem isValid_of_div {a b : Measure} (h : (a.div b).isValid = true) :
    a.isValid = true ∧ b.isValid = true := by
  unfold Measure.div at h
  split at h
  · next hboth => exact Bool.and_eq_true_iff.1 hboth
  · exact absurd h not_isValid_invalid

theorem isValid_of_pow {a : Measure} {p : Int} (h : (a.pow p).isValid = true) :
    a.isValid = true := by
  unfold Measure.pow at h
  split at h
  · next hbase => exact hbase
  · exact absurd h not_isValid_invalid

end Measure

namespace UnitExpr

variable {registry : Registry} {unit : UnitExpr}

/-! ## Units with nothing wrong -/

/-- Only the number one is a unit by itself. -/
theorem reduce_number (value : UnitNumber) (span : Span) :
    (UnitExpr.number value span).reduce registry =
      if value = .integer 1 then (.one, []) else (.invalid, [⟨.bareNumber value, span⟩]) := by
  split
  · next hvalue =>
      rw [hvalue]
      rfl
  · next hvalue =>
      rw [reduce]
      exact hvalue

/-- An exponent that can be used is a small integer. -/
theorem exponent_eq_ok {p : Int} (h : unit.exponent = .ok p) :
    ∃ span, unit = .number (.integer p) span ∧ Dimension.isExponent p = true := by
  unfold exponent at h
  split at h
  · next n span =>
      split at h
      · next hsmall =>
          cases h
          exact ⟨span, rfl, hsmall⟩
      · cases h
  · cases h
  · cases h

/-- A unit expression with a meaning has nothing wrong with it. -/
theorem clean_of_isValid (h : (unit.reduce registry).1.isValid = true) :
    (unit.reduce registry).2 = [] := by
  induction unit with
  | symbol name span =>
    unfold reduce at h ⊢
    split
    · rfl
    · next hunknown =>
        rw [hunknown] at h
        exact absurd h Measure.not_isValid_invalid
  | number value span =>
    rw [reduce_number] at h ⊢
    split
    · rfl
    · next hvalue =>
        rw [if_neg hvalue] at h
        exact absurd h Measure.not_isValid_invalid
  | group inner span ih => exact ih h
  | binary op left right span ihl ihr =>
    cases op with
    | mul =>
      obtain ⟨hleft, hright⟩ := Measure.isValid_of_mul h
      exact List.append_eq_nil_iff.2 ⟨ihl hleft, ihr hright⟩
    | div =>
      obtain ⟨hleft, hright⟩ := Measure.isValid_of_div h
      exact List.append_eq_nil_iff.2 ⟨ihl hleft, ihr hright⟩
    | pow =>
      simp only [reduce] at h ⊢
      split at h
      · exact ihl (Measure.isValid_of_pow h)
      · exact absurd h Measure.not_isValid_invalid

theorem clean_evaluate_of_isValid (h : (unit.evaluate registry).1.isValid = true) :
    (unit.evaluate registry).2 = [] := by
  rw [complaints_evaluate]
  refine clean_of_isValid ?_
  unfold evaluate at h
  simp only at h
  split at h
  · exact h
  · exact h

theorem eq_one_of_clean {value : UnitNumber} {span : Span}
    (h : ((UnitExpr.number value span).reduce registry).2 = []) : value = .integer 1 := by
  rw [reduce_number] at h
  split at h
  · next hvalue => exact hvalue
  · cases h

/-- The operands of a unit expression with nothing wrong have nothing wrong, or
the right one is a small integer behind a `^`. -/
theorem clean_operands {op : UnitOp} {left right : UnitExpr} {span : Span}
    (h : ((UnitExpr.binary op left right span).reduce registry).2 = []) :
    (left.reduce registry).2 = [] ∧ ((right.reduce registry).2 = [] ∨
      ∃ p span, right = .number (.integer p) span ∧ Dimension.isExponent p = true) := by
  cases op with
  | mul =>
    obtain ⟨hleft, hright⟩ := List.append_eq_nil_iff.1 h
    exact ⟨hleft, .inl hright⟩
  | div =>
    obtain ⟨hleft, hright⟩ := List.append_eq_nil_iff.1 h
    exact ⟨hleft, .inl hright⟩
  | pow =>
    simp only [reduce] at h
    split at h
    · next p hexponent =>
        obtain ⟨span, rfl, hsmall⟩ := exponent_eq_ok hexponent
        exact ⟨h, .inr ⟨p, span, rfl, hsmall⟩⟩
    · exact absurd h (List.append_ne_nil_of_right_ne_nil _ (List.cons_ne_nil _ _))

theorem inRange_of_isExponent {p : Int} (h : Dimension.isExponent p = true) :
    Number.inRange p.natAbs = true := by
  have hsmall := of_decide_eq_true h
  unfold Dimension.least Dimension.greatest at hsmall
  refine decide_eq_true ?_
  unfold Number.least Number.greatest
  omega

/-- Numbers in a unit expression with nothing wrong are small integers. -/
theorem writable_of_clean (h : (unit.reduce registry).2 = [])
    (hnames : ∀ name, .identifier name ∈ unit.spelling → Token.IsName name) : unit.Writable := by
  induction unit with
  | symbol name span => exact hnames name (List.mem_singleton_self _)
  | number value span =>
    obtain rfl := eq_one_of_clean h
    rfl
  | group inner span ih =>
    exact ih h fun name hname =>
      hnames name (List.mem_cons_of_mem _ (List.mem_append_left _ hname))
  | binary op left right span ihl ihr =>
    obtain ⟨hleft, hright⟩ := clean_operands h
    refine ⟨ihl hleft fun name hname => hnames name (List.mem_append_left _ hname), ?_⟩
    rcases hright with hright | ⟨p, span, rfl, hsmall⟩
    · exact ihr hright fun name hname =>
        hnames name (List.mem_append_right _ (List.mem_cons_of_mem _ hname))
    · exact inRange_of_isExponent hsmall

/-! ## Spans do not matter to the meaning -/

/-- The exponent is usable or not whatever its spans are. -/
theorem toOption_exponent_erase (unit : UnitExpr) :
    unit.erase.exponent.toOption = unit.exponent.toOption := by
  cases unit with
  | number value span =>
    cases value with
    | integer n =>
      simp only [erase, exponent]
      split <;> rfl
    | real x => rfl
  | symbol name span => rfl
  | binary op left right span => rfl
  | group inner span => rfl

/-- The measure of a unit expression does not depend on its spans, nor does the
number of complaints. -/
theorem reduce_erase (unit : UnitExpr) :
    (unit.erase.reduce registry).1 = (unit.reduce registry).1 ∧
      (unit.erase.reduce registry).2.length = (unit.reduce registry).2.length := by
  induction unit with
  | symbol name span =>
    simp only [erase, reduce]
    split <;> exact ⟨rfl, rfl⟩
  | number value span =>
    rw [erase, reduce_number, reduce_number]
    split <;> exact ⟨rfl, rfl⟩
  | group inner span ih => exact ih
  | binary op left right span ihl ihr =>
    cases op with
    | mul =>
      simp only [erase, reduce, List.length_append, ihl.1, ihl.2, ihr.1, ihr.2, and_self]
    | div =>
      simp only [erase, reduce, List.length_append, ihl.1, ihl.2, ihr.1, ihr.2, and_self]
    | pow =>
      have hexponent := toOption_exponent_erase right
      simp only [erase, reduce]
      cases hp : right.exponent with
      | ok p =>
        cases hq : right.erase.exponent with
        | ok q =>
          rw [hp, hq] at hexponent
          cases hexponent
          exact ⟨congrArg (·.pow p) ihl.1, ihl.2⟩
        | error complaint =>
          rw [hp, hq] at hexponent
          cases hexponent
      | error complaint =>
        cases hq : right.erase.exponent with
        | ok q =>
          rw [hp, hq] at hexponent
          cases hexponent
        | error complaint =>
          exact ⟨rfl, by simp only [List.length_append, ihl.2, List.length_singleton]⟩

/-- Unit expressions that differ in their spans only have the same measure. -/
theorem evaluate_congr {other : UnitExpr} (herase : unit.erase = other.erase)
    (h : (other.evaluate registry).2 = []) : unit.evaluate registry = other.evaluate registry := by
  have hmeasure : (unit.reduce registry).1 = (other.reduce registry).1 := by
    rw [← (reduce_erase unit).1, herase, (reduce_erase other).1]
  have hcomplaints : (unit.reduce registry).2 = (other.reduce registry).2 := by
    rw [complaints_evaluate] at h
    rw [h, ← List.length_eq_zero_iff, ← (reduce_erase unit).2, herase, (reduce_erase other).2, h]
    rfl
  have htext : unit.text = other.text := by
    rw [← text_erase unit, herase, text_erase]
  unfold evaluate
  rw [Prod.ext hmeasure hcomplaints, htext]

/-! ## Labels -/

/-- The measure gets the text of the whole as its label, unless it is without
meaning or that of plain numbers. -/
theorem evaluate_eq (unit : UnitExpr) :
    unit.evaluate registry =
      if ((unit.reduce registry).1.isValid && !(unit.reduce registry).1.isPlain) = true then
        ({ (unit.reduce registry).1 with label := some unit.text }, (unit.reduce registry).2)
      else unit.reduce registry :=
  rfl

/-- A product, a quotient and a power have no label of their own. -/
theorem label_reduce_binary (op : UnitOp) (left right : UnitExpr) (span : Span) :
    ((UnitExpr.binary op left right span).reduce registry).1.label = none := by
  cases op with
  | mul =>
    simp only [reduce, Measure.mul]
    split <;> rfl
  | div =>
    simp only [reduce, Measure.div]
    split <;> rfl
  | pow =>
    simp only [reduce, Measure.pow]
    split
    · split <;> rfl
    · rfl

/-- A label is the text of a part of the same measure.  That is the whole,
unless it is the measure of plain numbers. -/
theorem exists_part_of_label {label : String}
    (h : (unit.evaluate registry).1.label = some label) :
    ∃ part ∈ unit.parts, part.text = label ∧ part.evaluate registry = unit.evaluate registry := by
  by_cases hlabelled :
      ((unit.reduce registry).1.isValid && !(unit.reduce registry).1.isPlain) = true
  · rw [evaluate_eq, if_pos hlabelled] at h
    exact ⟨unit, mem_parts_self unit, Option.some.inj h, rfl⟩
  · -- the label that is left is that of a name, perhaps in parentheses
    have heq : unit.evaluate registry = unit.reduce registry := if_neg hlabelled
    rw [heq] at h ⊢
    clear heq
    induction unit with
    | symbol name span =>
      have heq : (UnitExpr.symbol name span).evaluate registry = _ := if_neg hlabelled
      refine ⟨_, mem_parts_self _, ?_, heq⟩
      unfold reduce at h
      split at h
      · exact Option.some.inj h
      · cases h
    | number value span =>
      rw [reduce_number] at h
      split at h <;> cases h
    | binary op left right span _ _ =>
      rw [label_reduce_binary] at h
      cases h
    | group inner span ih =>
      obtain ⟨part, hpart, htext, hmeasure⟩ := ih h hlabelled
      exact ⟨part, List.mem_cons_of_mem _ hpart, htext, hmeasure⟩

/-! ## Units of programs -/

/-- The unit expression can be read, but for a number that may have a sign, and
its names are names. -/
structure Legible (unit : UnitExpr) : Prop where
  shape : unit.Shaped ∨ ∃ value span, unit = .number value span
  names : ∀ name, .identifier name ∈ unit.spelling → Token.IsName name

theorem Legible.part {part : UnitExpr} (h : unit.Legible) (hpart : part ∈ unit.parts) :
    part.Legible where
  shape := shaped_of_mem_parts hpart h.shape
  names name hname := h.names name (mem_spelling_of_mem_parts hpart hname)

/-- With nothing wrong, there is no sign. -/
theorem Legible.shaped (h : unit.Legible) (hclean : (unit.evaluate registry).2 = []) :
    unit.Shaped := by
  rcases h.shape with hshaped | ⟨value, span, rfl⟩
  · exact hshaped
  · rw [complaints_evaluate] at hclean
    obtain rfl := eq_one_of_clean hclean
    have hatom : UnitAtom (UnitNested 0) [.integer 1] (.number (.integer 1) .nowhere) := .integer 1
    exact ⟨_, unitExpression_of_atom hatom⟩

theorem Legible.writable (h : unit.Legible) (hclean : (unit.evaluate registry).2 = []) :
    unit.Writable :=
  writable_of_clean (complaints_evaluate registry unit ▸ hclean) h.names

/-- The unit expression stands in the program that is read from some text. -/
def Written (unit : UnitExpr) : Prop :=
  ∃ (source : Source) (program : Program),
    (Program.parse source source.lex.tokens).program = some program ∧ unit ∈ program.units

/-- The unit expressions of programs are legible. -/
theorem Written.legible (h : unit.Written) : unit.Legible := by
  obtain ⟨source, program, hprogram, hunit⟩ := h
  obtain ⟨whole, hpart, read, hderived, hread⟩ := Program.madeOf_units hprogram hunit
  refine Legible.part ⟨.inl ⟨read, hderived⟩, fun name hname => ?_⟩ hpart
  exact source.isName_of_mem_lex (hread _ (identifier_mem_of_derived hderived hname))

/-! ## Casts -/

/-- What is a displayed cast of a name without its spans is one with them. -/
theorem exists_cast_of_eraseAll {statements : List Stmt} {name : String}
    (h : Stmt.eraseAll statements =
      [.display (.cast (.identifier name .nowhere) unit .nowhere)]) :
    ∃ read here span, statements = [.display (.cast (.identifier name here) read span)] ∧
      read.erase = unit := by
  match statements with
  | [] =>
    rw [Stmt.eraseAll] at h
    cases h
  | _ :: _ :: _ =>
    rw [Stmt.eraseAll, Stmt.eraseAll] at h
    exact absurd (List.cons.inj h).2 (List.cons_ne_nil _ _)
  | [.assign ..] =>
    rw [Stmt.eraseAll, Stmt.erase] at h
    cases h
  | [.block ..] =>
    rw [Stmt.eraseAll, Stmt.erase] at h
    cases h
  | [.display value] =>
    rw [Stmt.eraseAll, Stmt.erase] at h
    have hvalue := Stmt.display.inj (List.cons.inj h).1
    cases value with
    | cast inner read span =>
      obtain ⟨hinner, hread, _⟩ := Expr.cast.inj hvalue
      cases inner with
      | identifier other here =>
        obtain ⟨rfl, _⟩ := Expr.identifier.inj hinner
        exact ⟨read, here, span, rfl, hread⟩
      | _ => cases hinner
    | _ => cases hvalue

theorem derived_cast (levels : Nat) (name : String) {read : List Token.Kind}
    (h : UnitExpression read unit) :
    Expression (levels + 1) (.identifier name :: .leftBracket :: (read ++ [.rightBracket]))
      (.cast (.identifier name .nowhere) unit .nowhere) :=
  .operand (.operand (.operand (.operand (.cast (.primary (.identifier name)) h))))

/-- The text of a cast is read as a cast to the same unit. -/
theorem parse_cast (hshaped : unit.Shaped) (h : unit.Writable) {name : String}
    (hname : Token.IsName name) (file : String) :
    let source : Source := ⟨file, name ++ "[" ++ unit.text ++ "]"⟩
    let parsed := Program.parse source source.lex.tokens
    source.lex.log = ∅ ∧ parsed.log.totalErrors = 0 ∧
      ∃ program read here span, parsed.program = some program ∧
        program.statements = [.display (.cast (.identifier name here) read span)] ∧
        read.erase = unit.erase := by
  intro source
  have hclosed : Cursor.Spells [']'] [.rightBracket] := .sign rfl (by decide) .nil
  have hunit := spells_text h hclosed (Cursor.detaches_cons (by decide) (by decide))
  have hopened : Cursor.Spells ('[' :: _) (.leftBracket :: _) := .sign rfl (by decide) hunit
  have hall := Cursor.Spells.cons
    (Cursor.scans_name hname (Cursor.detaches_cons (by decide) (by decide))) hopened
  have htext : source.text.toList = name.toList ++ '[' :: (unit.text.toList ++ [']']) := by
    simp only [source, String.toList_append, List.append_assoc]
    rfl
  rw [← htext] at hall
  obtain ⟨hlog, body, last, htokens, hkinds, hlast⟩ := source.lex_of_spells hall
  have hvalue : Expression maxNesting (body.map (·.kind))
      (.cast (.identifier name .nowhere) unit.erase .nowhere) := by
    rw [hkinds]
    exact derived_cast _ name hshaped.derived_spelling
  obtain ⟨herrors, program, hprogram, herased⟩ := Program.parse_of_derived source
    (ne_endOfFile_of_proper hvalue.proper) hlast (.last (.display hvalue))
  rw [← htokens] at herrors hprogram
  obtain ⟨read, here, span, hstatements, hread⟩ := exists_cast_of_eraseAll herased
  exact ⟨hlog, herrors, program, read, here, span, hprogram, hstatements, hread⟩

end UnitExpr

end UnitScript
