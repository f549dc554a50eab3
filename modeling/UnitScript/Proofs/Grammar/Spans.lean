import UnitScript.Program.Parser
import UnitScript.Proofs.Occurrences
import UnitScript.Proofs.Spans

/-!
# The spans of what is read

Spans come from tokens, and reading only ever joins them.  So a property of
spans that joining keeps passes from the tokens to everything that is read from
them, and to all that is complained about on the way.

* `TokenStream.Within` says that a stream has only such spans, and the same of
  `UnitExpr`, `Expr` and `Stmt`.
* `Parse.Gives` says that reading leaves such a stream in any case, what the value
  is that it gives, and that it complains only at such a span; `Gives.bind` follows
  it through a sequence.
* `within_statements` carries it through statements that fail, and `within_parse`
  is the result for whole programs.
-/

namespace UnitScript

variable {P : Span → Prop}

/-! ## Spans of expressions -/

/-- All spans of the unit have the property `P`. -/
def UnitExpr.Within (P : Span → Prop) (unit : UnitExpr) : Prop := ∀ part ∈ unit.parts, P part.span

/-- All spans of the expression have the property `P`. -/
def Expr.Within (P : Span → Prop) : Expr → Prop
  | .literal _ span => P span
  | .identifier _ span => P span
  | .negate operand span => operand.Within P ∧ P span
  | .binary _ left right span => left.Within P ∧ right.Within P ∧ P span
  | .cast value unit span => value.Within P ∧ unit.Within P ∧ P span
  | .paren inner span => inner.Within P ∧ P span

/-- The statement and its expressions have spans with the property `P`. -/
structure Stmt.Within (P : Span → Prop) (statement : Stmt) : Prop where
  span : P statement.span
  exprs : ∀ e ∈ statement.exprs, e.Within P

theorem UnitExpr.Within.span {unit : UnitExpr} (h : unit.Within P) : P unit.span :=
  h unit unit.mem_parts_self

theorem Expr.Within.span {e : Expr} (h : e.Within P) : P e.span := by
  cases e with
  | literal value span => exact h
  | identifier name span => exact h
  | negate operand span => exact h.2
  | binary op left right span => exact h.2.2
  | cast value unit span => exact h.2.2
  | paren inner span => exact h.2

theorem UnitExpr.within_group {inner : UnitExpr} {span : Span} (hinner : inner.Within P)
    (hspan : P span) : (UnitExpr.group inner span).Within P :=
  List.forall_mem_cons.2 ⟨hspan, hinner⟩

section Joins

variable (hjoin : ∀ {a b : Span}, P a → P b → P (a.join b))

include hjoin

theorem UnitExpr.within_join (op : UnitOp) (left right : UnitExpr) (hleft : left.Within P)
    (hright : right.Within P) : (UnitExpr.join op left right).Within P :=
  List.forall_mem_cons.2
    ⟨hjoin hleft.span hright.span, List.forall_mem_append.2 ⟨hleft, hright⟩⟩

theorem Expr.within_join (op : BinaryOp) (left right : Expr) (hleft : left.Within P)
    (hright : right.Within P) : (Expr.join op left right).Within P :=
  ⟨hleft, hright, hjoin hleft.span hright.span⟩

end Joins

/-! ## Streams -/

namespace TokenStream

/-- The tokens that are left, the one before them and the end of the file have
spans with the property `P`. -/
structure Within (P : Span → Prop) (s : TokenStream) : Prop where
  rest : ∀ token ∈ s.rest, P token.span
  previous : P s.previous
  finish : P s.finish

variable {s : TokenStream}

theorem Within.span (h : s.Within P) : P s.span := by
  unfold TokenStream.span
  split
  · exact h.finish
  · next token rest hrest => exact h.rest token (by rw [hrest]; exact List.mem_cons_self)

theorem Within.advance (h : s.Within P) : s.advance.Within P := by
  unfold TokenStream.advance
  split
  · exact h
  · next token rest hrest =>
      have htokens := h.rest
      rw [hrest, List.forall_mem_cons] at htokens
      exact ⟨htokens.2, htokens.1, h.finish⟩

theorem Within.skipWhile (h : s.Within P) (p : Token.Kind → Bool) : (s.skipWhile p).Within P := by
  refine ⟨fun token hmem => h.rest token ((List.dropWhile_sublist _).mem hmem), ?_, h.finish⟩
  simp only [TokenStream.skipWhile]
  split
  · next token hlast =>
      exact h.rest token ((List.takeWhile_sublist _).mem (List.mem_of_getLast? hlast))
  · exact h.previous

theorem Within.skipNewlines (h : s.Within P) : s.skipNewlines.Within P := h.skipWhile _

theorem Within.synchronize (h : s.Within P) : s.synchronize.Within P :=
  (h.skipWhile isInsideStatement).skipNewlines

theorem within_ofTokens {tokens : List Token} (horigin : P (.point .origin))
    (h : ∀ token ∈ tokens, P token.span) : (ofTokens tokens).Within P := by
  refine ⟨fun token hmem => h token ((List.takeWhile_sublist _).mem hmem), horigin, ?_⟩
  simp only [ofTokens]
  split
  · next token hfound => exact h token (List.mem_of_find?_eq_some hfound)
  · next token _ hlast => exact h token (List.mem_of_getLast? hlast)
  · exact horigin

end TokenStream

/-! ## Single steps of reading -/

namespace Parse

variable {α β ω : Type}

/-- The stream that is left has spans with the property `P`, a value that was read
is good, and a complaint is made at such a span. -/
def Stays (P : Span → Prop) (good : α → Prop) : EStateM.Result Complaint TokenStream α → Prop
  | .ok value s => good value ∧ s.Within P
  | .error complaint s => P complaint.span ∧ s.Within P

/-- From a stream with spans with the property `P`, good values are read, and
reading stays at such spans in any case. -/
def Gives (P : Span → Prop) (good : α → Prop) (p : Parse α) : Prop :=
  ∀ s, s.Within P → Stays P good (p s)

theorem Gives.bind {m : Parse α} {next : α → Parse β} {good : α → Prop} {good' : β → Prop}
    (hm : Gives P good m) (hnext : ∀ value, good value → Gives P good' (next value)) :
    Gives P good' (m >>= next) := by
  intro s hs
  have hfirst := hm s hs
  change Stays P good' (EStateM.bind m next s)
  unfold EStateM.bind
  cases hresult : m s with
  | error complaint s' =>
    rw [hresult] at hfirst
    exact hfirst
  | ok value s' =>
    rw [hresult] at hfirst
    exact hnext value hfirst.1 s' hfirst.2

theorem gives_pure {good : α → Prop} {value : α} (h : good value) :
    Gives P good (pure value : Parse α) :=
  fun _ hs => ⟨h, hs⟩

theorem gives_peek : Gives P (fun _ => True) peek := fun _ hs => ⟨trivial, hs⟩

theorem gives_previous : Gives P P previous := fun _ hs => ⟨hs.previous, hs⟩

theorem gives_advance : Gives P P advance := fun _ hs => ⟨hs.span, hs.advance⟩

theorem gives_skipNewlines : Gives P (fun _ => True) skipNewlines :=
  fun _ hs => ⟨trivial, hs.skipNewlines⟩

theorem gives_fail {good : α → Prop} (problem : Problem) : Gives P good (fail problem : Parse α) :=
  fun _ hs => ⟨hs.span, hs⟩

theorem gives_eat (wanted : Token.Kind) : Gives P (fun _ => True) (eat wanted) := by
  intro s hs
  unfold eat
  split
  · exact ⟨trivial, hs.advance⟩
  · exact ⟨trivial, hs⟩

theorem gives_expect (wanted : Token.Kind) : Gives P (fun _ => True) (expect wanted) := by
  intro s hs
  unfold expect
  split
  · exact ⟨trivial, hs.advance⟩
  · exact ⟨hs.span, hs⟩

theorem gives_leftAssoc {good : α → Prop} (op? : Token.Kind → Option ω) {operand : Parse α}
    (hoperand : Gives P good operand) {join : ω → α → α → α}
    (hjoin : ∀ op a b, good a → good b → good (join op a b)) (fuel : Nat) :
    Gives P good (leftAssoc fuel op? operand join) := by
  have hchain (fuel : Nat) (left : α) (hleft : good left) :
      Gives P good (chain op? operand join fuel left) := by
    induction fuel generalizing left with
    | zero => exact gives_pure hleft
    | succ fuel ih =>
      refine gives_peek.bind fun k _ => ?_
      split
      · exact gives_pure hleft
      · next op _ =>
          refine gives_advance.bind fun _ _ => hoperand.bind fun right hright => ?_
          exact ih (join op left right) (hjoin op left right hleft hright)
  exact hoperand.bind fun left hleft => hchain fuel left hleft

variable (hjoin : ∀ {a b : Span}, P a → P b → P (a.join b))

include hjoin

/-! ## Units -/

section Units

variable {inner : Parse UnitExpr} (hinner : Gives P (UnitExpr.Within P) inner)

include hinner

theorem gives_unitAtom : Gives P (UnitExpr.Within P) (unitAtom inner) := by
  refine gives_peek.bind fun k _ => ?_
  split
  · exact gives_advance.bind fun _ hspan => gives_pure (List.forall_mem_singleton.2 hspan)
  · exact gives_advance.bind fun _ hspan => gives_pure (List.forall_mem_singleton.2 hspan)
  · exact gives_advance.bind fun _ hspan => gives_pure (List.forall_mem_singleton.2 hspan)
  · refine gives_advance.bind fun opening hopening => hinner.bind fun unit hunit => ?_
    refine (gives_expect _).bind fun _ _ => gives_previous.bind fun closing hclosing => ?_
    exact gives_pure (UnitExpr.within_group hunit (hjoin hopening hclosing))
  · exact gives_fail _

theorem gives_unitExponent : Gives P (UnitExpr.Within P) (unitExponent inner) := by
  refine gives_peek.bind fun k _ => ?_
  split
  · refine gives_advance.bind fun minus hminus => gives_peek.bind fun k' _ => ?_
    split
    · exact gives_advance.bind fun _ hspan =>
        gives_pure (List.forall_mem_singleton.2 (hjoin hminus hspan))
    · exact gives_advance.bind fun _ hspan =>
        gives_pure (List.forall_mem_singleton.2 (hjoin hminus hspan))
    · exact gives_fail _
  · exact gives_unitAtom hjoin hinner

theorem gives_unitFactorWith : Gives P (UnitExpr.Within P) (unitFactorWith inner) := by
  refine (gives_unitAtom hjoin hinner).bind fun base hbase => (gives_eat _).bind fun caret _ => ?_
  split
  · exact (gives_unitExponent hjoin hinner).bind fun exponent hexponent =>
      gives_pure (UnitExpr.within_join hjoin .pow base exponent hbase hexponent)
  · exact gives_pure hbase

end Units

theorem gives_unitExpr (fuel : Nat) : Gives P (UnitExpr.Within P) (unitExpr fuel) := by
  induction fuel with
  | zero => exact gives_peek.bind fun _ _ => gives_fail _
  | succ fuel ih =>
    exact gives_leftAssoc unitOp? (gives_unitFactorWith hjoin ih) (UnitExpr.within_join hjoin) fuel

theorem gives_unitFactor (fuel : Nat) : Gives P (UnitExpr.Within P) (unitFactor fuel) :=
  gives_unitFactorWith hjoin (gives_unitExpr hjoin fuel)

/-! ## Values -/

theorem gives_unitSuffix (fuel : Nat) {number : Expr} (hnumber : number.Within P) :
    Gives P (Expr.Within P) (unitSuffix fuel number) := by
  have hcast : Gives P (Expr.Within P) (do
      let unit ← unitFactor fuel
      return .cast number unit (number.span.join unit.span)) :=
    (gives_unitFactor hjoin fuel).bind fun unit hunit =>
      gives_pure ⟨hnumber, hunit, hjoin hnumber.span hunit.span⟩
  refine gives_peek.bind fun k _ => ?_
  split
  · exact hcast
  · exact hcast
  · exact gives_pure hnumber

theorem gives_casts (fuel : Nat) {value : Expr} (hvalue : value.Within P) :
    Gives P (Expr.Within P) (casts fuel value) := by
  induction fuel generalizing value with
  | zero => exact gives_pure hvalue
  | succ fuel ih =>
    refine (gives_eat _).bind fun opened _ => ?_
    split
    · refine (gives_unitExpr hjoin fuel).bind fun unit hunit => (gives_expect _).bind fun _ _ => ?_
      refine gives_previous.bind fun closing hclosing => ih ?_
      exact ⟨hvalue, hunit, hjoin hvalue.span hclosing⟩
    · exact gives_pure hvalue

section Values

variable {nested exponent : Parse Expr} (hnested : Gives P (Expr.Within P) nested)

include hnested

theorem gives_primary (fuel : Nat) : Gives P (Expr.Within P) (primary fuel nested) := by
  have hliteral (value : Literal) :
      Gives P (Expr.Within P) (do return .literal value (← advance) : Parse Expr) :=
    gives_advance.bind fun span hspan => gives_pure hspan
  have hnumber (value : Literal) :
      Gives P (Expr.Within P) (do unitSuffix fuel (.literal value (← advance)) : Parse Expr) :=
    gives_advance.bind fun span hspan => gives_unitSuffix hjoin fuel hspan
  refine gives_peek.bind fun k _ => ?_
  cases k with
  | integer n => exact hnumber (.integer n)
  | real x => exact hnumber (.real x)
  | string text => exact hliteral (.string text)
  | character c => exact hliteral (.character c)
  | keyword word => cases word <;> exact hliteral _
  | identifier name => exact gives_advance.bind fun span hspan => gives_pure hspan
  | leftParen =>
    refine gives_advance.bind fun opening hopening => gives_skipNewlines.bind fun _ _ => ?_
    refine hnested.bind fun inner hinner => gives_skipNewlines.bind fun _ _ => ?_
    refine (gives_expect _).bind fun _ _ => gives_previous.bind fun closing hclosing => ?_
    exact gives_pure ⟨hinner, hjoin hopening hclosing⟩
  | _ => exact gives_fail _

theorem gives_power (hexponent : Gives P (Expr.Within P) exponent) (fuel : Nat) :
    Gives P (Expr.Within P) (power fuel nested exponent) := by
  have hoperand : Gives P (Expr.Within P) (operand fuel nested) :=
    (gives_primary hjoin hnested fuel).bind fun _ hvalue => gives_casts hjoin fuel hvalue
  refine hoperand.bind fun base hbase => (gives_eat _).bind fun caret _ => ?_
  split
  · exact hexponent.bind fun value hvalue =>
      gives_pure (Expr.within_join hjoin _ base value hbase hvalue)
  · exact gives_pure hbase

end Values

theorem gives_nestedWith {unary : (levels : Nat) → Parse Expr}
    (hunary : ∀ levels, Gives P (Expr.Within P) (unary levels)) (fuel levels : Nat) :
    Gives P (Expr.Within P) (nestedWith fuel unary levels) := by
  cases levels with
  | zero => exact gives_fail _
  | succ levels =>
    have hproduct := gives_leftAssoc productOp? (hunary levels) (Expr.within_join hjoin) fuel
    have hsum := gives_leftAssoc sumOp? hproduct (Expr.within_join hjoin) fuel
    exact gives_leftAssoc comparisonOp? hsum (Expr.within_join hjoin) fuel

theorem gives_unary (fuel levels : Nat) : Gives P (Expr.Within P) (unary fuel levels) := by
  induction fuel generalizing levels with
  | zero => exact gives_peek.bind fun _ _ => gives_fail _
  | succ fuel ih =>
    refine gives_peek.bind fun k _ => ?_
    split
    · refine gives_advance.bind fun minus hminus => (ih levels).bind fun value hvalue => ?_
      exact gives_pure ⟨hvalue, hjoin hminus hvalue.span⟩
    · exact gives_power hjoin (gives_nestedWith hjoin ih fuel levels) (ih levels) fuel

theorem gives_expression (fuel levels : Nat) : Gives P (Expr.Within P) (expression fuel levels) :=
  gives_nestedWith hjoin (gives_unary hjoin fuel) fuel levels

theorem gives_simpleStatement (fuel levels : Nat) :
    Gives P (Stmt.Within P) (simpleStatement fuel levels) := by
  intro s hs
  unfold simpleStatement
  split
  · refine (gives_advance.bind fun target htarget => gives_advance.bind fun _ _ => ?_) s hs
    refine (gives_expression hjoin fuel levels).bind fun value hvalue => gives_pure ⟨?_, ?_⟩
    · exact hjoin htarget hvalue.span
    · rw [Stmt.exprs]
      exact List.forall_mem_singleton.2 hvalue
  · refine ((gives_expression hjoin fuel levels).bind fun value hvalue => ?_) s hs
    refine gives_peek.bind fun k _ => ?_
    split
    · exact gives_fail _
    · refine gives_pure ⟨hvalue.span, ?_⟩
      rw [Stmt.exprs]
      exact List.forall_mem_singleton.2 hvalue

end Parse

/-! ## Statements -/

/-- All statements and their expressions have spans with the property `P`. -/
def Stmt.AllWithin (P : Span → Prop) (statements : List Stmt) : Prop :=
  ∀ statement ∈ statements, statement.Within P

theorem Stmt.AllWithin.exprs {statements : List Stmt} (h : AllWithin P statements) :
    ∀ e ∈ Stmt.allExprs statements, e.Within P := by
  induction statements with
  | nil =>
    intro e he
    rw [Stmt.allExprs] at he
    exact absurd he List.not_mem_nil
  | cons statement later ih =>
    obtain ⟨hfirst, hlater⟩ := List.forall_mem_cons.1 h
    rw [Stmt.allExprs]
    exact List.forall_mem_append.2 ⟨hfirst.exprs, ih hlater⟩

namespace Reading

variable (source : Source)

/-- What was read and what is left have spans with the property `P`, and so does
what was reported. -/
structure Within (P : Span → Prop) (reading : Reading) : Prop where
  stream : reading.stream.Within P
  log : Diagnostics.Marks source P reading.log

variable {source} {reading : Reading}

theorem Within.move (h : reading.Within source P) {step : TokenStream → TokenStream}
    (hstep : (step reading.stream).Within P) : (reading.move step).Within source P :=
  ⟨hstep, h.log⟩

theorem Within.complain (h : reading.Within source P) (problem : Problem) {span : Span}
    (hspan : P span) : (reading.complain source problem span).Within source P :=
  ⟨h.stream, h.log.complain hspan⟩

theorem within_endStatement (h : reading.Within source P) :
    (reading.endStatement source).Within source P := by
  unfold endStatement
  split
  · exact h.move h.stream.skipNewlines
  · exact h
  · exact h
  · exact (h.complain _ h.stream.span).move h.stream.synchronize

section Joins

variable (hjoin : ∀ {a b : Span}, P a → P b → P (a.join b))
  {body : (levels : Nat) → Reading → List Stmt × Reading}
  (hbody : ∀ levels reading, reading.Within source P →
    Stmt.AllWithin P (body levels reading).1 ∧ (body levels reading).2.Within source P)

include hjoin hbody

theorem within_block (levels : Nat) (h : reading.Within source P) :
    Stmt.AllWithin P (reading.block source body levels).1.toList ∧
      (reading.block source body levels).2.Within source P := by
  have hopening := h.stream.span
  have hadvanced := h.move h.stream.advance
  have hnone : Stmt.AllWithin P [] := fun _ hmem => absurd hmem List.not_mem_nil
  cases levels with
  | zero => exact ⟨hnone, hadvanced.complain _ hopening⟩
  | succ levels =>
    obtain ⟨hstatements, hread⟩ := hbody levels (reading.move .advance) hadvanced
    simp only [block]
    split
    · have hclosed := hread.move hread.stream.advance
      refine ⟨List.forall_mem_singleton.2 ⟨hjoin hopening hclosed.stream.previous, ?_⟩, hclosed⟩
      rw [Stmt.exprs]
      exact hstatements.exprs
    · exact ⟨hnone, hread.complain _ hopening⟩

theorem within_statement (fuel levels : Nat) (h : reading.Within source P) :
    Stmt.AllWithin P (reading.statement source fuel body levels).1.toList ∧
      (reading.statement source fuel body levels).2.Within source P := by
  unfold statement
  split
  · exact within_block hjoin hbody levels h
  · have hread := Parse.gives_simpleStatement hjoin fuel levels reading.stream h.stream
    unfold attempt
    cases hresult : Parse.simpleStatement fuel levels reading.stream with
    | ok statement stream =>
      rw [hresult] at hread
      exact ⟨List.forall_mem_singleton.2 hread.1, hread.2, h.log⟩
    | error complaint stream =>
      rw [hresult] at hread
      exact ⟨fun _ hmem => absurd hmem List.not_mem_nil, hread.2, h.log.complain hread.1⟩

end Joins

/-- Reading statements keeps the property, also where it skips what it cannot
read. -/
theorem within_statements (hjoin : ∀ {a b : Span}, P a → P b → P (a.join b)) (fuel : Nat)
    (inBlock : Bool) (levels : Nat) (reading : Reading) (h : reading.Within source P) :
    Stmt.AllWithin P (statements source fuel inBlock levels reading).1 ∧
      (statements source fuel inBlock levels reading).2.Within source P := by
  have hnone : Stmt.AllWithin P [] := fun _ hmem => absurd hmem List.not_mem_nil
  induction fuel generalizing inBlock levels reading with
  | zero => exact ⟨hnone, h⟩
  | succ fuel ih =>
    have hskipped := h.move h.stream.skipNewlines
    unfold statements
    simp only
    split
    · exact ⟨hnone, hskipped⟩
    · split
      · refine ih inBlock levels _ ((hskipped.complain _ hskipped.stream.span).move ?_)
        exact hskipped.stream.advance
      · obtain ⟨hfirst, hafter⟩ := within_statement hjoin (ih true) (fuel + 1) levels hskipped
        cases hresult : (reading.move .skipNewlines).statement source (fuel + 1)
            (statements source fuel true) levels with
        | mk read after =>
          rw [hresult] at hfirst hafter
          cases read with
          | some statement =>
            obtain ⟨hlater, hlast⟩ := ih inBlock levels _ (within_endStatement hafter)
            exact ⟨List.forall_mem_cons.2 ⟨List.forall_mem_singleton.1 hfirst, hlater⟩, hlast⟩
          | none => exact ih inBlock levels _ (hafter.move hafter.stream.synchronize)

end Reading

/-- A property of spans that joining keeps passes from the tokens to a program
that is read from them, and to what is wrong with them. -/
theorem Program.within_parse (source : Source)
    (hjoin : ∀ {a b : Span}, P a → P b → P (a.join b)) (horigin : P (.point .origin))
    {tokens : List Token} (h : ∀ token ∈ tokens, P token.span) :
    Diagnostics.Marks source P (parse source tokens).log ∧
      ∀ program, (parse source tokens).program = some program →
        Stmt.AllWithin P program.statements := by
  have hstream := (TokenStream.within_ofTokens horigin h).skipNewlines
  obtain ⟨hstatements, hreading⟩ := Reading.within_statements hjoin
    ((TokenStream.ofTokens tokens).skipNewlines.rest.length + 1) false maxNesting
    ⟨(TokenStream.ofTokens tokens).skipNewlines, ∅⟩ ⟨hstream, (Diagnostics.marks_empty : Diagnostics.Marks source P ∅)⟩
  refine ⟨hreading.log, fun program hprogram => ?_⟩
  unfold parse at hprogram
  simp only at hprogram
  split at hprogram
  · cases hprogram
  · cases hprogram
    exact hstatements

end UnitScript
