import UnitScript.Program.Parser
import UnitScript.Proofs.Grammar.Values
import UnitScript.Proofs.Occurrences

/-!
# Where the units of a program come from

A program can be there although some of its statements could not be read.  The
units of those that could be read are still derived by the grammar, from tokens
of the list: reading never goes back and makes up no tokens, whether it
succeeds or fails.

* `UnitExpr.MadeOf` says that a unit is derived from tokens with some property.
* `Parse.Keeps` says that reading leaves such tokens in any case, and what the
  value is that it gives; `Keeps.bind` follows it through a sequence.
* `madeOf_statements` carries it through statements that fail, and
  `madeOf_units` is the result for whole programs.
-/

namespace UnitScript

open Grammar

/-- The unit is derived from tokens of kinds with the property `P`. -/
def UnitExpr.MadeOf (P : Token.Kind → Prop) (unit : UnitExpr) : Prop :=
  ∃ read, UnitExpression read unit.erase ∧ ∀ k ∈ read, P k

/-- A factor by itself is a unit expression. -/
theorem Grammar.UnitFactor.unitExpression {depth : Nat} {bare : Bool} {read : List Token.Kind}
    {unit : UnitExpr} (h : UnitFactor (UnitNested depth) bare read unit) :
    UnitExpression read unit :=
  ⟨depth + 1, .operand ⟨bare, h⟩⟩

/-! ## Streams -/

namespace TokenStream

/-- The tokens that are left are of kinds with the property `P`. -/
def Holds (P : Token.Kind → Prop) (s : TokenStream) : Prop := ∀ k ∈ s.kinds, P k

variable {P : Token.Kind → Prop} {s : TokenStream}

theorem Holds.advance (h : s.Holds P) : s.advance.Holds P := by
  intro k hk
  rw [kinds_advance] at hk
  exact h k (List.mem_of_mem_tail hk)

theorem Holds.skipWhile (h : s.Holds P) (p : Token.Kind → Bool) : (s.skipWhile p).Holds P := by
  intro k hk
  obtain ⟨token, htoken, rfl⟩ := List.mem_map.1 hk
  exact h token.kind (List.mem_map_of_mem ((List.dropWhile_sublist _).mem htoken))

theorem Holds.skipNewlines (h : s.Holds P) : s.skipNewlines.Holds P := h.skipWhile _

theorem Holds.synchronize (h : s.Holds P) : s.synchronize.Holds P :=
  (h.skipWhile isInsideStatement).skipNewlines

end TokenStream

/-! ## Single steps of reading -/

namespace Parse

variable {α β ω : Type} {P : Token.Kind → Prop}

/-- The tokens that are left have the property `P`, and a value that was read is
good. -/
def Leaves (P : Token.Kind → Prop) (good : α → Prop) :
    EStateM.Result Complaint TokenStream α → Prop
  | .ok value s => good value ∧ s.Holds P
  | .error _ s => s.Holds P

/-- From tokens with the property `P`, good values are read, and only such
tokens are left in any case. -/
def Keeps (P : Token.Kind → Prop) (good : α → Prop) (p : Parse α) : Prop :=
  ∀ s, s.Holds P → Leaves P good (p s)

theorem Keeps.bind {m : Parse α} {next : α → Parse β} {good : α → Prop} {good' : β → Prop}
    (hm : Keeps P good m) (hnext : ∀ value, good value → Keeps P good' (next value)) :
    Keeps P good' (m >>= next) := by
  intro s hs
  have hfirst := hm s hs
  change Leaves P good' (EStateM.bind m next s)
  unfold EStateM.bind
  cases hresult : m s with
  | error complaint s' =>
    rw [hresult] at hfirst
    exact hfirst
  | ok value s' =>
    rw [hresult] at hfirst
    exact hnext value hfirst.1 s' hfirst.2

theorem keeps_pure {good : α → Prop} {value : α} (h : good value) :
    Keeps P good (pure value : Parse α) :=
  fun _ hs => ⟨h, hs⟩

theorem keeps_peek : Keeps P (fun _ => True) peek := fun _ hs => ⟨trivial, hs⟩

theorem keeps_previous : Keeps P (fun _ => True) previous := fun _ hs => ⟨trivial, hs⟩

theorem keeps_advance : Keeps P (fun _ => True) advance := fun _ hs => ⟨trivial, hs.advance⟩

theorem keeps_skipNewlines : Keeps P (fun _ => True) skipNewlines :=
  fun _ hs => ⟨trivial, hs.skipNewlines⟩

theorem keeps_fail {good : α → Prop} (problem : Problem) :
    Keeps P good (fail problem : Parse α) :=
  fun _ hs => hs

theorem keeps_eat (wanted : Token.Kind) : Keeps P (fun _ => True) (eat wanted) := by
  intro s hs
  unfold eat
  split
  · exact ⟨trivial, hs.advance⟩
  · exact ⟨trivial, hs⟩

theorem keeps_expect (wanted : Token.Kind) : Keeps P (fun _ => True) (expect wanted) := by
  intro s hs
  unfold expect
  split
  · exact ⟨trivial, hs.advance⟩
  · exact hs

/-- What is read by a sound parser is derived from tokens that were there. -/
theorem Keeps.of_sound {erase : α → α} {G : List Token.Kind → Token.Kind → α → Prop}
    {p : Parse α} {good : α → Prop} (hp : Keeps P (fun _ => True) p) (hsound : Sound erase G p)
    (hgood : ∀ read next value, G read next (erase value) → (∀ k ∈ read, P k) → good value) :
    Keeps P good p := by
  intro s hs
  have hleft := hp s hs
  have htaken := hsound s
  cases hresult : p s with
  | error complaint s' =>
    rw [hresult] at hleft
    exact hleft
  | ok value s' =>
    rw [hresult] at hleft htaken
    obtain ⟨read, hread, hderived⟩ := htaken
    refine ⟨hgood read s'.kind value hderived fun k hk => hs k ?_, hleft.2⟩
    rw [hread]
    exact List.mem_append_left _ hk

theorem keeps_leftAssoc {good : α → Prop} (op? : Token.Kind → Option ω) {operand : Parse α}
    (hoperand : Keeps P good operand) {join : ω → α → α → α}
    (hjoin : ∀ op a b, good a → good b → good (join op a b)) (fuel : Nat) :
    Keeps P good (leftAssoc fuel op? operand join) := by
  have hchain (fuel : Nat) (left : α) (hleft : good left) :
      Keeps P good (chain op? operand join fuel left) := by
    induction fuel generalizing left with
    | zero => exact keeps_pure hleft
    | succ fuel ih =>
      refine keeps_peek.bind fun k _ => ?_
      split
      · exact keeps_pure hleft
      · next op _ =>
          refine keeps_advance.bind fun _ _ => hoperand.bind fun right hright => ?_
          exact ih (join op left right) (hjoin op left right hleft hright)
  exact hoperand.bind fun left hleft => hchain fuel left hleft

/-! ## Units -/

section Units

variable {inner : Parse UnitExpr} (hinner : Keeps P (fun _ => True) inner)

include hinner

theorem keeps_unitAtom : Keeps P (fun _ => True) (unitAtom inner) := by
  refine keeps_peek.bind fun k _ => ?_
  split
  · exact keeps_advance.bind fun _ _ => keeps_pure trivial
  · exact keeps_advance.bind fun _ _ => keeps_pure trivial
  · exact keeps_advance.bind fun _ _ => keeps_pure trivial
  · refine keeps_advance.bind fun _ _ => hinner.bind fun _ _ => ?_
    refine (keeps_expect _).bind fun _ _ => keeps_previous.bind fun _ _ => ?_
    exact keeps_pure trivial
  · exact keeps_fail _

theorem keeps_unitExponent : Keeps P (fun _ => True) (unitExponent inner) := by
  refine keeps_peek.bind fun k _ => ?_
  split
  · refine keeps_advance.bind fun _ _ => keeps_peek.bind fun k' _ => ?_
    split
    · exact keeps_advance.bind fun _ _ => keeps_pure trivial
    · exact keeps_advance.bind fun _ _ => keeps_pure trivial
    · exact keeps_fail _
  · exact keeps_unitAtom hinner

theorem keeps_unitFactorWith : Keeps P (fun _ => True) (unitFactorWith inner) := by
  refine (keeps_unitAtom hinner).bind fun _ _ => (keeps_eat _).bind fun caret _ => ?_
  split
  · exact (keeps_unitExponent hinner).bind fun _ _ => keeps_pure trivial
  · exact keeps_pure trivial

end Units

theorem keeps_unitExpr (fuel : Nat) : Keeps P (fun _ => True) (unitExpr fuel) := by
  induction fuel with
  | zero => exact keeps_peek.bind fun _ _ => keeps_fail _
  | succ fuel ih =>
    exact keeps_leftAssoc unitOp? (keeps_unitFactorWith ih) (fun _ _ _ _ _ => trivial) fuel

theorem madeOf_unitExpr (fuel : Nat) : Keeps P (UnitExpr.MadeOf P) (unitExpr fuel) := by
  refine (keeps_unitExpr fuel).of_sound (sound_unitExpr fuel) ?_
  intro read _ unit hunit hread
  exact ⟨read, ⟨fuel, hunit⟩, hread⟩

theorem madeOf_unitFactor (fuel : Nat) : Keeps P (UnitExpr.MadeOf P) (unitFactor fuel) := by
  refine (keeps_unitFactorWith (keeps_unitExpr fuel)).of_sound (sound_unitFactor fuel) ?_
  rintro read _ unit ⟨bare, hunit, _⟩ hread
  exact ⟨read, hunit.unitExpression, hread⟩

/-! ## Values -/

/-- All units of the expression are derived from tokens with the property `P`. -/
def UnitsFrom (P : Token.Kind → Prop) (e : Expr) : Prop := ∀ unit ∈ e.units, unit.MadeOf P

theorem UnitsFrom.cast {value : Expr} {unit : UnitExpr} (hvalue : UnitsFrom P value)
    (hunit : unit.MadeOf P) (span : Span) : UnitsFrom P (.cast value unit span) :=
  List.forall_mem_append.2 ⟨hvalue, List.forall_mem_singleton.2 hunit⟩

theorem UnitsFrom.join (op : BinaryOp) (left right : Expr) (hleft : UnitsFrom P left)
    (hright : UnitsFrom P right) : UnitsFrom P (.join op left right) :=
  List.forall_mem_append.2 ⟨hleft, hright⟩

theorem unitsFrom_literal (value : Literal) (span : Span) : UnitsFrom P (.literal value span) :=
  fun _ hunit => absurd hunit List.not_mem_nil

theorem keeps_unitSuffix (fuel : Nat) {number : Expr} (hnumber : UnitsFrom P number) :
    Keeps P (UnitsFrom P) (unitSuffix fuel number) := by
  refine keeps_peek.bind fun k _ => ?_
  split
  · exact (madeOf_unitFactor fuel).bind fun unit hunit => keeps_pure (hnumber.cast hunit _)
  · exact (madeOf_unitFactor fuel).bind fun unit hunit => keeps_pure (hnumber.cast hunit _)
  · exact keeps_pure hnumber

theorem keeps_casts (fuel : Nat) {value : Expr} (hvalue : UnitsFrom P value) :
    Keeps P (UnitsFrom P) (casts fuel value) := by
  induction fuel generalizing value with
  | zero => exact keeps_pure hvalue
  | succ fuel ih =>
    refine (keeps_eat _).bind fun opened _ => ?_
    split
    · refine (madeOf_unitExpr fuel).bind fun unit hunit => (keeps_expect _).bind fun _ _ => ?_
      exact keeps_previous.bind fun _ _ => ih (hvalue.cast hunit _)
    · exact keeps_pure hvalue

section Values

variable {nested exponent : Parse Expr} (hnested : Keeps P (UnitsFrom P) nested)

include hnested

theorem keeps_primary (fuel : Nat) : Keeps P (UnitsFrom P) (primary fuel nested) := by
  have hliteral (value : Literal) :
      Keeps P (UnitsFrom P) (do return .literal value (← advance) : Parse Expr) :=
    keeps_advance.bind fun span _ => keeps_pure (unitsFrom_literal value span)
  have hnumber (value : Literal) :
      Keeps P (UnitsFrom P) (do unitSuffix fuel (.literal value (← advance)) : Parse Expr) :=
    keeps_advance.bind fun span _ => keeps_unitSuffix fuel (unitsFrom_literal value span)
  refine keeps_peek.bind fun k _ => ?_
  cases k with
  | integer n => exact hnumber (.integer n)
  | real x => exact hnumber (.real x)
  | string text => exact hliteral (.string text)
  | character c => exact hliteral (.character c)
  | keyword word => cases word <;> exact hliteral _
  | identifier name =>
    refine keeps_advance.bind fun span _ => keeps_pure ?_
    exact fun _ hunit => absurd hunit List.not_mem_nil
  | leftParen =>
    refine keeps_advance.bind fun _ _ => keeps_skipNewlines.bind fun _ _ => ?_
    refine hnested.bind fun inner hinner => keeps_skipNewlines.bind fun _ _ => ?_
    refine (keeps_expect _).bind fun _ _ => keeps_previous.bind fun _ _ => ?_
    exact keeps_pure hinner
  | _ => exact keeps_fail _

theorem keeps_power (hexponent : Keeps P (UnitsFrom P) exponent) (fuel : Nat) :
    Keeps P (UnitsFrom P) (power fuel nested exponent) := by
  have hoperand : Keeps P (UnitsFrom P) (operand fuel nested) :=
    (keeps_primary hnested fuel).bind fun _ hvalue => keeps_casts fuel hvalue
  refine hoperand.bind fun base hbase => (keeps_eat _).bind fun caret _ => ?_
  split
  · exact hexponent.bind fun value hvalue => keeps_pure (.join _ base value hbase hvalue)
  · exact keeps_pure hbase

end Values

theorem keeps_nestedWith {unary : (levels : Nat) → Parse Expr}
    (hunary : ∀ levels, Keeps P (UnitsFrom P) (unary levels)) (fuel levels : Nat) :
    Keeps P (UnitsFrom P) (nestedWith fuel unary levels) := by
  cases levels with
  | zero => exact keeps_fail _
  | succ levels =>
    have hproduct := keeps_leftAssoc productOp? (hunary levels) UnitsFrom.join fuel
    have hsum := keeps_leftAssoc sumOp? hproduct UnitsFrom.join fuel
    exact keeps_leftAssoc comparisonOp? hsum UnitsFrom.join fuel

theorem keeps_unary (fuel levels : Nat) : Keeps P (UnitsFrom P) (unary fuel levels) := by
  induction fuel generalizing levels with
  | zero => exact keeps_peek.bind fun _ _ => keeps_fail _
  | succ fuel ih =>
    refine keeps_peek.bind fun k _ => ?_
    split
    · refine keeps_advance.bind fun _ _ => (ih levels).bind fun value hvalue => ?_
      exact keeps_pure hvalue
    · exact keeps_power (keeps_nestedWith ih fuel levels) (ih levels) fuel

theorem keeps_expression (fuel levels : Nat) : Keeps P (UnitsFrom P) (expression fuel levels) :=
  keeps_nestedWith (keeps_unary fuel) fuel levels

theorem keeps_simpleStatement (fuel levels : Nat) :
    Keeps P (fun statement => ∀ e ∈ statement.exprs, UnitsFrom P e)
      (simpleStatement fuel levels) := by
  intro s hs
  unfold simpleStatement
  split
  · refine (keeps_advance.bind fun _ _ => keeps_advance.bind fun _ _ => ?_) s hs
    refine (keeps_expression fuel levels).bind fun value hvalue => keeps_pure ?_
    rw [Stmt.exprs]
    exact List.forall_mem_singleton.2 hvalue
  · refine ((keeps_expression fuel levels).bind fun value hvalue => ?_) s hs
    refine keeps_peek.bind fun k _ => ?_
    split
    · exact keeps_fail _
    · refine keeps_pure ?_
      rw [Stmt.exprs]
      exact List.forall_mem_singleton.2 hvalue

end Parse

/-! ## Statements -/

namespace Reading

variable {P : Token.Kind → Prop} (source : Source)

/-- The statements that were found cast to units that are derived from tokens
with the property `P`, and only such tokens are left. -/
structure Finds (P : Token.Kind → Prop) (found : List Stmt) (after : Reading) : Prop where
  units : ∀ e ∈ Stmt.allExprs found, Parse.UnitsFrom P e
  holds : after.stream.Holds P

theorem finds_nil {after : Reading} (h : after.stream.Holds P) : Finds P [] after := by
  refine ⟨fun e he => ?_, h⟩
  rw [Stmt.allExprs] at he
  exact absurd he List.not_mem_nil

theorem allExprs_singleton (statement : Stmt) : Stmt.allExprs [statement] = statement.exprs := by
  rw [Stmt.allExprs, Stmt.allExprs, List.append_nil]

theorem holds_endStatement {reading : Reading} (h : reading.stream.Holds P) :
    (reading.endStatement source).stream.Holds P := by
  unfold endStatement
  split
  · exact h.skipNewlines
  · exact h
  · exact h
  · exact h.synchronize

theorem finds_block {body : (levels : Nat) → Reading → List Stmt × Reading}
    (hbody : ∀ levels reading, reading.stream.Holds P →
      Finds P (body levels reading).1 (body levels reading).2)
    (levels : Nat) {reading : Reading} (h : reading.stream.Holds P) :
    Finds P (reading.block source body levels).1.toList (reading.block source body levels).2 := by
  have hadvanced : (reading.move .advance).stream.Holds P := h.advance
  cases levels with
  | zero => exact finds_nil hadvanced
  | succ levels =>
    have hread := hbody levels (reading.move .advance) hadvanced
    simp only [block]
    split
    · refine ⟨?_, hread.holds.advance⟩
      rw [Option.toList_some, allExprs_singleton, Stmt.exprs]
      exact hread.units
    · exact finds_nil hread.holds

theorem finds_statement {body : (levels : Nat) → Reading → List Stmt × Reading}
    (hbody : ∀ levels reading, reading.stream.Holds P →
      Finds P (body levels reading).1 (body levels reading).2)
    (fuel levels : Nat) {reading : Reading} (h : reading.stream.Holds P) :
    Finds P (reading.statement source fuel body levels).1.toList
      (reading.statement source fuel body levels).2 := by
  unfold statement
  split
  · exact finds_block source hbody levels h
  · have hread := Parse.keeps_simpleStatement fuel levels reading.stream h
    unfold attempt
    cases hresult : Parse.simpleStatement fuel levels reading.stream with
    | ok statement stream =>
      rw [hresult] at hread
      refine ⟨?_, hread.2⟩
      rw [Option.toList_some, allExprs_singleton]
      exact hread.1
    | error complaint stream =>
      rw [hresult] at hread
      exact finds_nil hread

/-- Reading statements gives units that are derived from tokens of the stream,
also where it skips what it cannot read. -/
theorem madeOf_statements (fuel : Nat) (inBlock : Bool) (levels : Nat) (reading : Reading)
    (h : reading.stream.Holds P) :
    Finds P (statements source fuel inBlock levels reading).1
      (statements source fuel inBlock levels reading).2 := by
  induction fuel generalizing inBlock levels reading with
  | zero => exact finds_nil h
  | succ fuel ih =>
    have hskipped : (reading.move .skipNewlines).stream.Holds P := h.skipNewlines
    unfold statements
    simp only
    split
    · exact finds_nil hskipped
    · split
      · exact ih inBlock levels _ hskipped.advance
      · have hfirst := finds_statement source (ih true) (fuel + 1) levels
          hskipped
        cases hresult : (reading.move .skipNewlines).statement source (fuel + 1)
            (statements source fuel true) levels with
        | mk read after =>
          rw [hresult] at hfirst
          cases read with
          | some statement =>
            have hlater := ih inBlock levels _ (holds_endStatement source hfirst.holds)
            refine ⟨?_, hlater.holds⟩
            rw [Stmt.allExprs]
            refine List.forall_mem_append.2 ⟨?_, hlater.units⟩
            rw [← allExprs_singleton]
            exact hfirst.units
          | none => exact ih inBlock levels _ hfirst.holds.synchronize

end Reading

namespace Program

/-- The units of a program that is read are parts of units that are derived from
tokens of the list. -/
theorem madeOf_units {source : Source} {tokens : List Token} {program : Program}
    (h : (parse source tokens).program = some program) {part : UnitExpr}
    (hpart : part ∈ program.units) :
    ∃ unit : UnitExpr, part ∈ unit.parts ∧ unit.MadeOf fun k => k ∈ tokens.map (·.kind) := by
  have hholds : (TokenStream.ofTokens tokens).Holds fun k => k ∈ tokens.map (·.kind) := by
    intro k hk
    obtain ⟨token, htoken, rfl⟩ := List.mem_map.1 hk
    exact List.mem_map_of_mem ((List.takeWhile_sublist _).mem htoken)
  obtain ⟨e, he, hpart⟩ := List.mem_flatMap.1 hpart
  obtain ⟨unit, hunit, hpart⟩ := List.mem_flatMap.1 hpart
  refine ⟨unit, hpart, ?_⟩
  unfold parse at h
  simp only at h
  split at h
  · cases h
  · cases h
    exact (Reading.madeOf_statements source _ false maxNesting
      ⟨(TokenStream.ofTokens tokens).skipNewlines, ∅⟩ hholds.skipNewlines).units e he unit hunit

end Program

end UnitScript
