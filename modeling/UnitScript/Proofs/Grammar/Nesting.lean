import UnitScript.Proofs.Grammar.Spans
import UnitScript.Proofs.Grammar.Termination
import UnitScript.Proofs.Token.Order
import UnitScript.Proofs.Token.Positions

/-!
# Spans nest

The span of whatever is read covers the spans of its parts, and these stand one
behind the other without overlap.  This holds for all that is read of a source, also
where errors were skipped.

* `Span.Encloses` says it of a span and the spans of the parts, and `Nests` of all
  nodes of `UnitExpr`, `Expr`, `Stmt` and `Program`.
* `TokenStream.After` says that the tokens left stand in order behind a position,
  `Placed` that something was read behind a position and in front of what is left.
  Readings are joined by `Placed.join` and `Placed.mono`.
* `Parse.Nesting` is what each parser keeps of it, up to `nesting_simpleStatement`,
  and `found_statements` carries it through statements that fail.
* `parse_spans_nest` is the result.
-/

namespace UnitScript

/-! ## Spans and their parts -/

namespace Span

/-- The span does not end before it starts, covers the parts, and each part starts
behind the end of those before it. -/
structure Encloses (span : Span) (parts : List Span) : Prop where
  ordered : span.first ≤ span.last
  covers : ∀ part ∈ parts, span.first ≤ part.first ∧ part.last ≤ span.last
  inOrder : parts.Pairwise fun part later => part.last < later.first

variable {a b : Span}

/-- Two spans in order are joined at their ends. -/
theorem join_of_lt (ha : a.first ≤ a.last) (hb : b.first ≤ b.last) (h : a.last < b.first) :
    a.join b = ⟨a.first, b.last⟩ := by
  have hfirst : a.first ≤ b.first := Position.le_trans ha (Position.le_of_lt h)
  have hlast : a.last ≤ b.last := Position.le_trans (Position.le_of_lt h) hb
  rw [join, show min a.first b.first = a.first from if_pos hfirst,
    show max a.last b.last = b.last from if_pos hlast]

theorem first_join_le (a b : Span) : (a.join b).first ≤ a.first := by
  show min a.first b.first ≤ a.first
  rcases Position.min_cases a.first b.first with ⟨heq, _⟩ | ⟨heq, hle⟩ <;> rw [heq]
  · exact Position.le_refl _
  · exact hle

theorem le_last_join (a b : Span) : a.last ≤ (a.join b).last ∧ b.last ≤ (a.join b).last := by
  show a.last ≤ max a.last b.last ∧ b.last ≤ max a.last b.last
  rcases Position.max_cases a.last b.last with ⟨heq, hle⟩ | ⟨heq, hle⟩ <;> rw [heq]
  · exact ⟨Position.le_refl _, hle⟩
  · exact ⟨hle, Position.le_refl _⟩

end Span

/-- The spans of the unit nest. -/
def UnitExpr.Nests : UnitExpr → Prop
  | .symbol _ span => span.Encloses []
  | .number _ span => span.Encloses []
  | .binary _ left right span => left.Nests ∧ right.Nests ∧ span.Encloses [left.span, right.span]
  | .group inner span => inner.Nests ∧ span.Encloses [inner.span]

/-- The spans of the expression nest. -/
def Expr.Nests : Expr → Prop
  | .literal _ span => span.Encloses []
  | .identifier _ span => span.Encloses []
  | .negate operand span => operand.Nests ∧ span.Encloses [operand.span]
  | .binary _ left right span => left.Nests ∧ right.Nests ∧ span.Encloses [left.span, right.span]
  | .cast value unit span => value.Nests ∧ unit.Nests ∧ span.Encloses [value.span, unit.span]
  | .paren inner span => inner.Nests ∧ span.Encloses [inner.span]

/-- The spans of the statement nest. -/
inductive Stmt.Nests : Stmt → Prop
  | assign {target : Name} {value : Expr} {span : Span} (htarget : target.span.Encloses [])
      (hvalue : value.Nests) (hspan : span.Encloses [target.span, value.span]) :
      Nests (.assign target value span)
  | display {value : Expr} (hvalue : value.Nests)
      (hspan : (Stmt.display value).span.Encloses [value.span]) : Nests (.display value)
  | block {body : List Stmt} {span : Span} (hbody : ∀ statement ∈ body, Nests statement)
      (hspan : span.Encloses (body.map (·.span))) : Nests (.block body span)

/-- The spans of the program nest. -/
structure Program.Nests (program : Program) : Prop where
  statements : ∀ statement ∈ program.statements, statement.Nests
  span : program.span.Encloses (program.statements.map (·.span))

/-! ## Streams behind a position -/

namespace TokenStream

/-- The tokens left stand in order, behind a position. -/
structure After (p : Position) (s : TokenStream) : Prop where
  inOrder : Token.InOrder s.rest
  starts : ∀ token ∈ s.rest, p < token.span.first

/-- The position is passed: nothing that is left starts in front of it, and the token
read last does not end in front of it. -/
structure Passed (p : Position) (s : TokenStream) : Prop extends After p s where
  previous : p ≤ s.previous.last

/-- Something with this span was read behind `p`, and `s` is left behind it. -/
structure Placed (p : Position) (span : Span) (s : TokenStream) : Prop where
  starts : p < span.first
  ordered : span.first ≤ span.last
  passed : s.Passed span.last

variable {p q : Position} {s s' s'' : TokenStream} {a b c : Span}

theorem After.leads (h : s.After p) (hleads : s.Leads s') : s'.After p := by
  obtain ⟨read, hread⟩ := hleads
  have hsub : s'.rest.Sublist s.rest := by
    rw [hread.rest]
    exact List.sublist_append_right read s'.rest
  exact ⟨h.inOrder.of_sublist hsub, fun token hmem => h.starts token (hsub.mem hmem)⟩

theorem Passed.leads (h : s.Passed p) (hleads : s.Leads s') : s'.Passed p := by
  refine ⟨h.toAfter.leads hleads, ?_⟩
  obtain ⟨read, hread⟩ := hleads
  rw [hread.previous]
  cases hlast : read.getLast? with
  | none => exact h.previous
  | some token =>
    have hmem : token ∈ s.rest := by
      rw [hread.rest]
      exact List.mem_append_left _ (List.mem_of_getLast? hlast)
    exact Position.le_trans (Position.le_of_lt (h.starts token hmem)) (h.inOrder.ordered token hmem)

/-- A token that is not a newline is read behind `p`. -/
theorem After.read (h : s.After p) {k : Token.Kind} (hk : s.kind = k) (hend : k ≠ .endOfFile)
    (hline : k ≠ .newline) : Placed p s.span s.advance := by
  obtain ⟨token, rest, hrest, rfl⟩ := exists_cons_of_kind hk hend
  have hspan : s.span = token.span := by rw [TokenStream.span, hrest]
  have hadvance : s.advance.rest = rest := by
    unfold TokenStream.advance
    rw [hrest]
  have hmem : token ∈ s.rest := by
    rw [hrest]
    exact List.mem_cons_self
  have horder := h.inOrder.precedes
  rw [hrest, List.pairwise_cons] at horder
  rw [hspan]
  refine ⟨h.starts token hmem, h.inOrder.ordered token hmem, ⟨?_, ?_⟩, ?_⟩
  · exact (h.leads s.leads_advance).inOrder
  · rw [hadvance]
    exact fun later hlater => (horder.1 later hlater).lt hline
  · rw [previous_advance (by rwa [hk]), hspan]
    exact Position.le_refl _

namespace Placed

theorem leads (h : Placed p a s) (hleads : s.Leads s') : Placed p a s' :=
  ⟨h.starts, h.ordered, h.passed.leads hleads⟩

theorem after (h : Placed p a s) : s.After a.last := h.passed.toAfter

/-- Whatever is read behind `p` ends behind `p`. -/
theorem le_last (h : Placed p a s) : p ≤ a.last :=
  Position.le_trans (Position.le_of_lt h.starts) h.ordered

theorem mono (h : Placed q a s) (hle : p ≤ q) : Placed p a s :=
  ⟨Position.lt_of_le_of_lt hle h.starts, h.ordered, h.passed⟩

theorem encloses_nil (h : Placed p a s) : a.Encloses [] := ⟨h.ordered, nofun, .nil⟩

/-- What is read from `a` to `b` covers what starts and ends between them. -/
theorem encloses (ha : Placed p a s) (hb : Placed a.last b s') {parts : List Span}
    (hcovers : ∀ part ∈ parts, a.first ≤ part.first ∧ part.last ≤ b.last)
    (hparts : parts.Pairwise fun part later => part.last < later.first) :
    (a.join b).Encloses parts := by
  rw [Span.join_of_lt ha.ordered hb.ordered hb.starts]
  exact ⟨Position.le_trans ha.ordered hb.le_last, hcovers, hparts⟩

/-- Two things that are read one behind the other are read together. -/
theorem join (ha : Placed p a s) (hb : Placed a.last b s') : Placed p (a.join b) s' := by
  rw [Span.join_of_lt ha.ordered hb.ordered hb.starts]
  exact ⟨ha.starts, Position.le_trans ha.ordered hb.le_last, hb.passed⟩

theorem first_le (ha : Placed p a s) (hb : Placed a.last b s') : a.first ≤ b.first :=
  Position.le_trans ha.ordered (Position.le_of_lt hb.starts)

theorem encloses_last (ha : Placed p a s) (hb : Placed a.last b s') :
    (a.join b).Encloses [b] :=
  ha.encloses hb (List.forall_mem_singleton.2 ⟨ha.first_le hb, Position.le_refl _⟩)
    (List.pairwise_singleton _ _)

theorem encloses_pair (ha : Placed p a s) (hb : Placed a.last b s') :
    (a.join b).Encloses [a, b] := by
  refine ha.encloses hb (List.forall_mem_cons.2 ⟨⟨Position.le_refl _, hb.le_last⟩, ?_⟩)
    (List.pairwise_pair.2 hb.starts)
  exact List.forall_mem_singleton.2 ⟨ha.first_le hb, Position.le_refl _⟩

/-- Brackets from `a` to `c` cover what is read between them. -/
theorem encloses_inner (ha : Placed p a s) (hb : Placed a.last b s') (hc : Placed b.last c s'') :
    (a.join c).Encloses [b] :=
  ha.encloses (hc.mono hb.le_last)
    (List.forall_mem_singleton.2 ⟨ha.first_le hb, hc.le_last⟩) (List.pairwise_singleton _ _)

/-- A closing bracket `c` is covered together with what stands in front of it. -/
theorem encloses_closed (ha : Placed p a s) (hb : Placed a.last b s') (hc : Placed b.last c s'') :
    (a.join c).Encloses [a, b] := by
  refine ha.encloses (hc.mono hb.le_last)
    (List.forall_mem_cons.2 ⟨⟨Position.le_refl _, (hc.mono hb.le_last).le_last⟩, ?_⟩)
    (List.pairwise_pair.2 hb.starts)
  exact List.forall_mem_singleton.2 ⟨ha.first_le hb, hc.le_last⟩

end Placed

end TokenStream

/-! ## Single steps of reading -/

namespace Parse

open TokenStream (After Placed)

variable {α β ω : Type} {p : Position} {s : TokenStream}

/-- A good value was read behind `p`, or reading failed. -/
abbrev Gave (span : α → Span) (good : α → Prop) (p : Position) :
    EStateM.Result Complaint TokenStream α → Prop :=
  Ends (fun value s' => good value ∧ Placed p (span value) s') fun _ => True

/-- From tokens behind a position, good values are read behind it. -/
def Nesting (span : α → Span) (good : α → Prop) (parse : Parse α) : Prop :=
  ∀ p s, s.After p → Gave span good p (parse s)

theorem gave_fail {span : α → Span} {good : α → Prop} (problem : Problem) :
    Gave span good p ((fail problem : Parse α) s) := trivial

/-- A token that stands for itself. -/
theorem gave_advance {span : α → Span} {good : α → Prop} {make : Span → α}
    (hspan : ∀ a, span (make a) = a) (hgood : ∀ {a : Span}, a.Encloses [] → good (make a))
    (h : s.After p) {k : Token.Kind} (hk : s.kind = k) (hend : k ≠ .endOfFile)
    (hline : k ≠ .newline) :
    Gave span good p ((do return make (← advance) : Parse α) s) := by
  have hread := h.read hk hend hline
  refine ⟨hgood hread.encloses_nil, ?_⟩
  rw [hspan]
  exact hread

/-- Behind a value stands a closing bracket. -/
theorem ends_expect (wanted : Token.Kind) (hend : wanted ≠ .endOfFile) (hline : wanted ≠ .newline)
    {good : β → TokenStream → Prop} {next : Span → Parse β} (h : s.After p)
    (hnext : Placed p s.span s.advance → Ends good (fun _ => True) (next s.span s.advance)) :
    Ends good (fun _ => True) ((do expect wanted; next (← previous)) s) := by
  rw [expect_bind]
  split
  · next hk =>
    rw [previous_bind, TokenStream.previous_advance (by rwa [hk])]
    exact hnext (h.read hk hend hline)
  · trivial

section Chains

variable {span : α → Span} {good : α → Prop} {operand : Parse α} {join : ω → α → α → α}

theorem nesting_leftAssoc (op? : Token.Kind → Option ω) (hoperand : Nesting span good operand)
    (hspan : ∀ op a b, span (join op a b) = (span a).join (span b))
    (hjoin : ∀ op a b, good a → good b → ((span a).join (span b)).Encloses [span a, span b] →
      good (join op a b)) (fuel : Nat) :
    Nesting span good (leftAssoc fuel op? operand join) := by
  have hchain (fuel : Nat) (left : α) (p : Position) (s : TokenStream) (hleft : good left)
      (h : Placed p (span left) s) : Gave span good p (chain op? operand join fuel left s) := by
    induction fuel generalizing left s with
    | zero => exact ⟨hleft, h⟩
    | succ fuel ih =>
      rw [chain, peek_bind]
      cases op? s.kind with
      | none => exact ⟨hleft, h⟩
      | some op =>
        refine (hoperand _ _ (h.after.leads s.leads_advance)).bind fun right s' hright => ?_
        obtain ⟨hright, hplaced⟩ := hright
        refine ih (join op left right) s' (hjoin op left right hleft hright ?_) ?_
        · exact h.encloses_pair hplaced
        · rw [hspan]
          exact h.join hplaced
  intro p s h
  refine (hoperand p s h).bind fun left s' hleft => ?_
  exact hchain fuel left p s' hleft.1 hleft.2

end Chains

/-! ## Units -/

section Units

variable {inner : Parse UnitExpr} (hinner : Nesting UnitExpr.span UnitExpr.Nests inner)

include hinner

theorem nesting_unitAtom : Nesting UnitExpr.span UnitExpr.Nests (unitAtom inner) := by
  intro p s h
  rw [unitAtom, peek_bind]
  cases hk : s.kind with
  | identifier name => exact gave_advance (fun _ => rfl) id h hk (by simp) (by simp)
  | integer n => exact gave_advance (fun _ => rfl) id h hk (by simp) (by simp)
  | real x => exact gave_advance (fun _ => rfl) id h hk (by simp) (by simp)
  | leftParen =>
    have hopening := h.read hk (by simp) (by simp)
    simp only [advance_bind]
    refine (hinner _ _ hopening.after).bind fun unit s' hunit => ?_
    obtain ⟨hunit, hplaced⟩ := hunit
    refine ends_expect .rightParen (by simp) (by simp) hplaced.after fun hclosing => ?_
    exact ⟨⟨hunit, hopening.encloses_inner hplaced hclosing⟩,
      hopening.join (hclosing.mono hplaced.le_last)⟩
  | _ => exact gave_fail _

theorem nesting_unitExponent : Nesting UnitExpr.span UnitExpr.Nests (unitExponent inner) := by
  intro p s h
  have hatom := nesting_unitAtom hinner p s h
  rw [unitExponent, peek_bind]
  cases hk : s.kind with
  | minus =>
    have hminus := h.read hk (by simp) (by simp)
    -- the sign and the number are one leaf
    have hnumber (value : UnitNumber) {k : Token.Kind} (hk : s.advance.kind = k)
        (hend : k ≠ .endOfFile) (hline : k ≠ .newline) :
        Gave UnitExpr.span UnitExpr.Nests p
          ((do return .number value (s.span.join (← advance)) : Parse UnitExpr) s.advance) := by
      have hread := hminus.after.read hk hend hline
      exact ⟨(hminus.join hread).encloses_nil, hminus.join hread⟩
    simp only [advance_bind, peek_bind]
    cases hk' : s.advance.kind with
    | integer n => exact hnumber (.integer (-n)) hk' (by simp) (by simp)
    | real x => exact hnumber (.real (-x)) hk' (by simp) (by simp)
    | _ => exact gave_fail _
  | _ => exact hatom

theorem nesting_unitFactorWith : Nesting UnitExpr.span UnitExpr.Nests (unitFactorWith inner) := by
  intro p s h
  refine (nesting_unitAtom hinner p s h).bind fun base s' hbase => ?_
  obtain ⟨hbase, hplaced⟩ := hbase
  rw [eat_bind]
  split
  · refine (nesting_unitExponent hinner _ _ (hplaced.after.leads s'.leads_advance)).bind
      fun exponent s'' hexponent => ?_
    obtain ⟨hexponent, hplaced'⟩ := hexponent
    exact ⟨⟨hbase, hexponent, hplaced.encloses_pair hplaced'⟩, hplaced.join hplaced'⟩
  · exact ⟨hbase, hplaced⟩

end Units

theorem nesting_unitExpr (fuel : Nat) : Nesting UnitExpr.span UnitExpr.Nests (unitExpr fuel) := by
  induction fuel with
  | zero => exact fun _ _ _ => gave_fail _
  | succ fuel ih =>
    have hspan (op : UnitOp) (a b : UnitExpr) :
        (UnitExpr.join op a b).span = a.span.join b.span := rfl
    have hjoin (op : UnitOp) (a b : UnitExpr) (ha : a.Nests) (hb : b.Nests)
        (h : (a.span.join b.span).Encloses [a.span, b.span]) : (UnitExpr.join op a b).Nests :=
      ⟨ha, hb, h⟩
    exact nesting_leftAssoc unitOp? (nesting_unitFactorWith ih) hspan hjoin fuel

/-! ## Values -/

/-- A number and the unit behind it. -/
theorem gave_unitSuffix (fuel : Nat) {number : Expr} (hnumber : number.Nests)
    (h : Placed p number.span s) :
    Gave Expr.span Expr.Nests p (unitSuffix fuel number s) := by
  have hcast : Gave Expr.span Expr.Nests p
      ((do
        let unit ← unitFactor fuel
        return Expr.cast number unit (number.span.join unit.span)) s) := by
    refine (nesting_unitFactorWith (nesting_unitExpr fuel) _ _ h.after).bind fun unit s' hunit => ?_
    obtain ⟨hunit, hplaced⟩ := hunit
    exact ⟨⟨hnumber, hunit, h.encloses_pair hplaced⟩, h.join hplaced⟩
  rw [unitSuffix, peek_bind]
  cases s.kind with
  | identifier name => exact hcast
  | leftParen => exact hcast
  | _ => exact ⟨hnumber, h⟩

/-- A value and the casts behind it. -/
theorem gave_casts (fuel : Nat) {value : Expr} (hvalue : value.Nests)
    (h : Placed p value.span s) : Gave Expr.span Expr.Nests p (casts fuel value s) := by
  induction fuel generalizing value s with
  | zero => exact ⟨hvalue, h⟩
  | succ fuel ih =>
    rw [casts, eat_bind]
    split
    · refine (nesting_unitExpr fuel _ _ (h.after.leads s.leads_advance)).bind
        fun unit s' hunit => ?_
      obtain ⟨hunit, hplaced⟩ := hunit
      refine ends_expect .rightBracket (by simp) (by simp) hplaced.after fun hclosing => ?_
      exact ih ⟨hvalue, hunit, h.encloses_closed hplaced hclosing⟩
        (h.join (hclosing.mono hplaced.le_last))
    · exact ⟨hvalue, h⟩

section Values

variable {nested exponent : Parse Expr} (hnested : Nesting Expr.span Expr.Nests nested)

include hnested

theorem nesting_primary (fuel : Nat) :
    Nesting Expr.span Expr.Nests (primary fuel nested) := by
  intro p s h
  have hnumber (value : Literal) {k : Token.Kind} (hk : s.kind = k) (hend : k ≠ .endOfFile)
      (hline : k ≠ .newline) : Gave Expr.span Expr.Nests p
        ((do unitSuffix fuel (.literal value (← advance)) : Parse Expr) s) := by
    have hread := h.read hk hend hline
    exact gave_unitSuffix fuel hread.encloses_nil hread
  rw [primary, peek_bind]
  cases hk : s.kind with
  | integer n => exact hnumber (.integer n) hk (by simp) (by simp)
  | real x => exact hnumber (.real x) hk (by simp) (by simp)
  | string text => exact gave_advance (fun _ => rfl) id h hk (by simp) (by simp)
  | character c => exact gave_advance (fun _ => rfl) id h hk (by simp) (by simp)
  | keyword word => cases word <;> exact gave_advance (fun _ => rfl) id h hk (by simp) (by simp)
  | identifier name => exact gave_advance (fun _ => rfl) id h hk (by simp) (by simp)
  | leftParen =>
    have hopening := h.read hk (by simp) (by simp)
    simp only [advance_bind, skipNewlines_bind]
    refine (hnested _ _ (hopening.after.leads (TokenStream.leads_skipNewlines _))).bind
      fun inner s' hinner => ?_
    obtain ⟨hinner, hplaced⟩ := hinner
    simp only [skipNewlines_bind]
    refine ends_expect .rightParen (by simp) (by simp) (hplaced.after.leads s'.leads_skipNewlines)
      fun hclosing => ?_
    exact ⟨⟨hinner, hopening.encloses_inner hplaced hclosing⟩,
      hopening.join (hclosing.mono hplaced.le_last)⟩
  | _ => exact gave_fail _

theorem nesting_power (hexponent : Nesting Expr.span Expr.Nests exponent) (fuel : Nat) :
    Nesting Expr.span Expr.Nests (power fuel nested exponent) := by
  intro p s h
  have hoperand : Gave Expr.span Expr.Nests p (operand fuel nested s) :=
    (nesting_primary hnested fuel p s h).bind fun value s' hvalue =>
      gave_casts fuel hvalue.1 hvalue.2
  refine hoperand.bind fun base s' hbase => ?_
  obtain ⟨hbase, hplaced⟩ := hbase
  rw [eat_bind]
  split
  · refine (hexponent _ _ (hplaced.after.leads s'.leads_advance)).bind fun value s'' hvalue => ?_
    obtain ⟨hvalue, hplaced'⟩ := hvalue
    exact ⟨⟨hbase, hvalue, hplaced.encloses_pair hplaced'⟩, hplaced.join hplaced'⟩
  · exact ⟨hbase, hplaced⟩

end Values

theorem nesting_nestedWith {unary : (levels : Nat) → Parse Expr}
    (hunary : ∀ levels, Nesting Expr.span Expr.Nests (unary levels)) (fuel levels : Nat) :
    Nesting Expr.span Expr.Nests (nestedWith fuel unary levels) := by
  cases levels with
  | zero => exact fun _ _ _ => gave_fail _
  | succ levels =>
    have hspan (op : BinaryOp) (a b : Expr) : (Expr.join op a b).span = a.span.join b.span := rfl
    have hjoin (op : BinaryOp) (a b : Expr) (ha : a.Nests) (hb : b.Nests)
        (h : (a.span.join b.span).Encloses [a.span, b.span]) : (Expr.join op a b).Nests :=
      ⟨ha, hb, h⟩
    have hproduct := nesting_leftAssoc productOp? (hunary levels) hspan hjoin fuel
    have hsum := nesting_leftAssoc sumOp? hproduct hspan hjoin fuel
    exact nesting_leftAssoc comparisonOp? hsum hspan hjoin fuel

theorem nesting_unary (fuel levels : Nat) :
    Nesting Expr.span Expr.Nests (unary fuel levels) := by
  induction fuel generalizing levels with
  | zero => exact fun _ _ _ => gave_fail _
  | succ fuel ih =>
    intro p s h
    have hpower := nesting_power (nesting_nestedWith ih fuel levels) (ih levels) fuel p s h
    rw [unary, peek_bind]
    cases hk : s.kind with
    | minus =>
      have hminus := h.read hk (by simp) (by simp)
      simp only [advance_bind]
      refine (ih levels _ _ hminus.after).bind fun value s' hvalue => ?_
      obtain ⟨hvalue, hplaced⟩ := hvalue
      exact ⟨⟨hvalue, hminus.encloses_last hplaced⟩, hminus.join hplaced⟩
    | _ => exact hpower

theorem nesting_expression (fuel levels : Nat) :
    Nesting Expr.span Expr.Nests (expression fuel levels) :=
  nesting_nestedWith (nesting_unary fuel) fuel levels

theorem nesting_simpleStatement (fuel levels : Nat) :
    Nesting Stmt.span Stmt.Nests (simpleStatement fuel levels) := by
  intro p s h
  unfold simpleStatement
  split
  · next name hk _ =>
    have htarget := h.read hk (by simp) (by simp)
    simp only [advance_bind]
    refine (nesting_expression fuel levels _ _
      (htarget.after.leads (TokenStream.leads_advance _))).bind fun value s' hvalue => ?_
    obtain ⟨hvalue, hplaced⟩ := hvalue
    exact ⟨.assign htarget.encloses_nil hvalue (htarget.encloses_pair hplaced),
      htarget.join hplaced⟩
  · refine (nesting_expression fuel levels p s h).bind fun value s' hvalue => ?_
    obtain ⟨hvalue, hplaced⟩ := hvalue
    rw [peek_bind]
    split
    · exact gave_fail _
    · refine ⟨.display hvalue ⟨hplaced.ordered, ?_, List.pairwise_singleton _ _⟩, hplaced⟩
      exact List.forall_mem_singleton.2 ⟨Position.le_refl _, Position.le_refl _⟩

end Parse

/-! ## Statements -/

namespace Reading

open TokenStream (Placed)

/-- The statements were found behind `p`, one behind the other, and the stream is left
behind them. -/
structure Found (p : Position) (found : List Stmt) (s : TokenStream) : Prop where
  nests : ∀ statement ∈ found, statement.Nests
  placed : ∀ statement ∈ found, Placed p statement.span s
  inOrder : (found.map (·.span)).Pairwise fun span later => span.last < later.first

variable {p : Position} {s s' : TokenStream} {reading : Reading}

theorem found_nil (p : Position) (s : TokenStream) : Found p [] s := ⟨nofun, nofun, .nil⟩

theorem found_singleton {statement : Stmt} (hnests : statement.Nests)
    (h : Placed p statement.span s) : Found p [statement] s :=
  ⟨List.forall_mem_singleton.2 hnests, List.forall_mem_singleton.2 h, List.pairwise_singleton _ _⟩

theorem Found.leads {found : List Stmt} (h : Found p found s) (hleads : s.Leads s') :
    Found p found s' :=
  ⟨h.nests, fun statement hmem => (h.placed statement hmem).leads hleads, h.inOrder⟩

/-- A statement stands in front of those that are found behind it. -/
theorem Found.cons {statement : Stmt} {later : List Stmt} (hnests : statement.Nests)
    (hfirst : Placed p statement.span s) (hlater : Found statement.span.last later s) :
    Found p (statement :: later) s where
  nests := List.forall_mem_cons.2 ⟨hnests, hlater.nests⟩
  placed := List.forall_mem_cons.2
    ⟨hfirst, fun other hmem => (hlater.placed other hmem).mono hfirst.le_last⟩
  inOrder := by
    refine List.pairwise_cons.2 ⟨fun span hmem => ?_, hlater.inOrder⟩
    obtain ⟨other, hother, rfl⟩ := List.mem_map.1 hmem
    exact (hlater.placed other hother).starts

section Bodies

variable (source : Source) {body : (levels : Nat) → Reading → List Stmt × Reading}
  (hbody : ∀ p levels (inner : Reading), inner.stream.After p →
    Found p (body levels inner).1 (body levels inner).2.stream)
  (hleads : ∀ levels (inner : Reading), inner.stream.Leads (body levels inner).2.stream)

include hbody hleads

/-- A block covers its statements from brace to brace. -/
theorem found_block (levels : Nat) (h : reading.stream.After p)
    (hopen : reading.stream.kind = .leftBrace) :
    Found p (reading.block source body levels).1.toList
      (reading.block source body levels).2.stream := by
  have hopening := h.read hopen (by simp) (by simp)
  cases levels with
  | zero => exact found_nil p _
  | succ levels =>
    have hfound := hbody reading.stream.span.last levels (reading.move .advance) hopening.after
    have hafter := hopening.after.leads (hleads levels (reading.move .advance))
    simp only [block]
    split
    · next hclose =>
      have hclosing := hafter.read hclose (by simp) (by simp)
      have hprevious := TokenStream.previous_advance (by rw [hclose]; simp)
      refine found_singleton (.block hfound.nests ?_) ?_
      · show (reading.stream.span.join (TokenStream.advance _).previous).Encloses _
        rw [hprevious]
        refine hopening.encloses hclosing (fun span hmem => ?_) hfound.inOrder
        obtain ⟨statement, hstatement, rfl⟩ := List.mem_map.1 hmem
        have hplaced := hfound.placed statement hstatement
        have hbehind := hplaced.after.read hclose (by simp) (by simp)
        exact ⟨hopening.first_le hplaced, hbehind.le_last⟩
      · show Placed p (reading.stream.span.join (TokenStream.advance _).previous) _
        rw [hprevious]
        exact hopening.join hclosing
    · exact found_nil p _

theorem found_statement (fuel levels : Nat) (h : reading.stream.After p) :
    Found p (reading.statement source fuel body levels).1.toList
      (reading.statement source fuel body levels).2.stream := by
  unfold statement
  split
  · next hopen => exact found_block source hbody hleads levels h hopen
  · have hread := Parse.nesting_simpleStatement fuel levels p reading.stream h
    unfold attempt
    cases hresult : Parse.simpleStatement fuel levels reading.stream with
    | ok statement stream =>
      rw [hresult] at hread
      exact found_singleton hread.1 hread.2
    | error complaint stream => exact found_nil p _

theorem found_turn (fuel levels : Nat) (h : reading.stream.After p) :
    Found p (reading.turn source fuel body levels).1.toList
      (reading.turn source fuel body levels).2.stream := by
  have hfound := found_statement source hbody hleads fuel levels h
  unfold turn
  split
  · exact found_nil p _
  · cases hresult : reading.statement source fuel body levels with
    | mk found after =>
      rw [hresult] at hfound
      cases found with
      | some statement => exact hfound.leads (leads_endStatement source after)
      | none => exact found_nil p _

end Bodies

/-- Statements are found one behind the other, also where something is skipped between
them. -/
theorem found_statements (source : Source) (fuel : Nat) (inBlock : Bool) (p : Position)
    (levels : Nat) (reading : Reading) (h : reading.stream.After p) :
    Found p (statements source fuel inBlock levels reading).1
      (statements source fuel inBlock levels reading).2.stream := by
  induction fuel generalizing inBlock p levels reading with
  | zero => exact found_nil p _
  | succ fuel ih =>
    have hhere : (reading.move .skipNewlines).stream.After p :=
      h.leads reading.stream.leads_skipNewlines
    rw [statements_succ]
    generalize reading.move .skipNewlines = here at hhere
    by_cases hstop : here.stops inBlock = true
    · simp only [if_pos hstop]
      exact found_nil p _
    · simp only [if_neg hstop]
      have hforward := leads_statements source fuel true
      have hturn := found_turn source (ih true) hforward (fuel + 1) levels hhere
      have hnext : here.stream.Leads
          (here.turn source (fuel + 1) (statements source fuel true) levels).2.stream :=
        leads_turn hforward
      generalize here.turn source (fuel + 1) (statements source fuel true) levels = next
        at hturn hnext
      have hlater := leads_statements source fuel inBlock levels next.2
      cases hfound : next.1 with
      | none => exact ih inBlock p levels next.2 (hhere.leads hnext)
      | some statement =>
        rw [hfound] at hturn
        have hplaced := hturn.placed statement List.mem_cons_self
        exact .cons (hturn.nests statement List.mem_cons_self) (hplaced.leads hlater)
          (ih inBlock _ levels next.2 hplaced.after)

end Reading

/-! ## Programs -/

/-- The place in front of a position. -/
def Position.front (p : Position) : Position := ⟨p.line, p.column - 1⟩

theorem Position.front_lt_iff {p q : Position} (h : 1 ≤ p.column) : p.front < q ↔ p ≤ q := by
  rw [Position.lt_iff, Position.le_iff]
  simp only [Position.front]
  omega

/-- Tokens in order stand behind the place in front of the first of them. -/
theorem TokenStream.after_front {s : TokenStream} (h : Token.InOrder s.rest)
    (hcolumn : 1 ≤ s.span.first.column) : s.After s.span.first.front := by
  refine ⟨h, fun token hmem => (Position.front_lt_iff hcolumn).2 ?_⟩
  unfold TokenStream.span
  cases hrest : s.rest with
  | nil =>
    rw [hrest] at hmem
    cases hmem
  | cons first later =>
    rw [hrest] at hmem h
    rcases List.mem_cons.1 hmem with rfl | hlater
    · exact Position.le_refl _
    · have hprecedes := (List.pairwise_cons.1 h.precedes).1 token hlater
      exact Position.le_trans (h.ordered first List.mem_cons_self) hprecedes.le

namespace Program

/-- The spans of every program that is read of a source nest.  Every node covers its
parts, and each part starts behind the end of those before it. -/
theorem parse_spans_nest (source : Source) (program : Program)
    (h : (parse source source.lex.tokens).program = some program) : program.Nests := by
  let s := (TokenStream.ofTokens source.lex.tokens).skipNewlines
  have hcovers : source.Covers s.span :=
    (TokenStream.within_ofTokens source.covers_origin fun _ => source.covers_lex).skipNewlines.span
  have hrest : s.rest.Sublist source.lex.tokens :=
    (List.dropWhile_sublist _).trans (List.takeWhile_sublist _)
  have hfound := Reading.found_statements source (s.rest.length + 1) false s.span.first.front
    maxNesting ⟨s, ∅⟩
    (TokenStream.after_front (source.inOrder_lex.of_sublist hrest) hcovers.firstColumn)
  unfold parse at h
  simp only at h
  split at h
  · cases h
  · cases h
    refine ⟨hfound.nests, ?_, fun span hmem => ?_, hfound.inOrder⟩
    · exact Position.le_trans (Span.first_join_le _ _)
        (Position.le_trans hcovers.ordered (Span.le_last_join _ _).1)
    · obtain ⟨statement, hstatement, rfl⟩ := List.mem_map.1 hmem
      have hplaced := hfound.placed statement hstatement
      have hstarts := (Position.front_lt_iff hcovers.firstColumn).1 hplaced.starts
      exact ⟨Position.le_trans (Span.first_join_le _ _) hstarts,
        Position.le_trans hplaced.passed.previous (Span.le_last_join _ _).2⟩

/-- The second line is skipped, and the spans of what is left nest. -/
theorem parse_spans_nest_skipped :
    let source : Source := ⟨"", "a = (1 + 2 m)[cm]\n= 3\n\x7b -a \x7d"⟩
    ∃ program, (parse source source.lex.tokens).program = some program ∧
      program.statements.length = 2 ∧ program.Nests := by
  intro source
  have hsome : ((parse source source.lex.tokens).program.map (·.statements.length)) = some 2 := by
    decide +kernel
  obtain ⟨program, hprogram, hlength⟩ := Option.map_eq_some_iff.1 hsome
  exact ⟨program, hprogram, hlength, parse_spans_nest source program hprogram⟩

end Program

end UnitScript
