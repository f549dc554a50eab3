import UnitScript.Expr.Parser
import UnitScript.Proofs.Grammar.Units

/-!
# The grammar of value expressions

```text
expression = sum { ("==" | "!=") sum }
sum        = product { ("+" | "-") product }
product    = unary { ("*" | "/") unary }
unary      = "-" unary | operand | operand "^" unary
operand    = primary { "[" unit "]" }
primary    = number [ factor ] | constant | identifier | "(" expression ")"
```

The productions as relations between the kinds of tokens and the tree without
its spans, and the parser measured against them.

* `Primary`, `Operand` and `Unary` are the productions, over what may stand in
  parentheses.  `Expression` closes them over a budget of nesting levels.
* An operand is bare when it ends in the atom of a unit that stands directly
  behind a number.  A `^` there belongs to the unit, so the power of a value
  needs an operand that is not bare.
* `sound_expression` and `complete_expression` are the two directions.
-/

namespace UnitScript

/-- The expression without its spans. -/
def Expr.erase : Expr → Expr
  | .literal value _ => .literal value .nowhere
  | .identifier name _ => .identifier name .nowhere
  | .negate operand _ => .negate operand.erase .nowhere
  | .binary op left right _ => .binary op left.erase right.erase .nowhere
  | .cast value unit _ => .cast value.erase unit.erase .nowhere
  | .paren inner _ => .paren inner.erase .nowhere

namespace Grammar

/-- A number and its value. -/
inductive Number : Token.Kind → Literal → Prop
  | integer (n : Nat) : Number (.integer n) (.integer n)
  | real (x : Float) : Number (.real x) (.real x)

/-- A constant other than a number and its value. -/
inductive Constant : Token.Kind → Literal → Prop
  | string (s : String) : Constant (.string s) (.string s)
  | character (c : Char) : Constant (.character c) (.character c)
  | true : Constant (.keyword .true) (.boolean .true)
  | false : Constant (.keyword .false) (.boolean .false)
  | none : Constant (.keyword .none) .none

/-- The tokens that the unit behind a number starts with. -/
inductive StartsUnit : Token.Kind → Prop
  | identifier (name : String) : StartsUnit (.identifier name)
  | leftParen : StartsUnit .leftParen

/-- `[ factor ]`, behind the number `value`. -/
inductive Measured (value : Literal) : Bool → List Token.Kind → Expr → Prop
  | plain : Measured value false [] (.literal value .nowhere)
  | unit {depth bare k read unit} : StartsUnit k →
      UnitFactor (UnitNested depth) bare (k :: read) unit →
      Measured value bare (k :: read) (.cast (.literal value .nowhere) unit .nowhere)

variable (Nested : List Token.Kind → Expr → Prop)

/-- `number [ factor ] | constant | identifier | "(" expression ")"`, with
newlines allowed right inside the parentheses. -/
inductive Primary : Bool → List Token.Kind → Expr → Prop
  | number {k value bare read e} : Number k value → Measured value bare read e →
      Primary bare (k :: read) e
  | constant {k value} : Constant k value → Primary false [k] (.literal value .nowhere)
  | identifier (name : String) : Primary false [.identifier name] (.identifier name .nowhere)
  | paren {before read after e} : Newlines before → Nested read e → Newlines after →
      Primary false (.leftParen :: (before ++ (read ++ (after ++ [.rightParen]))))
        (.paren e .nowhere)

/-- `primary { "[" unit "]" }` -/
inductive Operand : Bool → List Token.Kind → Expr → Prop
  | primary {bare read e} : Primary Nested bare read e → Operand bare read e
  | cast {bare read read' e unit} : Operand bare read e → UnitExpression read' unit →
      Operand false (read ++ .leftBracket :: (read' ++ [.rightBracket])) (.cast e unit .nowhere)

/-- `"-" unary | operand | operand "^" unary` -/
inductive Unary : List Token.Kind → Expr → Prop
  | negate {read e} : Unary read e → Unary (.minus :: read) (.negate e .nowhere)
  | operand {bare read e} : Operand Nested bare read e → Unary read e
  | power {read read' base exponent} : Operand Nested false read base → Unary read' exponent →
      Unary (read ++ .caret :: read') (.binary (.arith .pow) base exponent .nowhere)

/-- The signs between factors. -/
def productSigns : List (Token.Kind × BinaryOp) := [(.star, .arith .mul), (.slash, .arith .div)]

/-- The signs between products. -/
def sumSigns : List (Token.Kind × BinaryOp) := [(.plus, .arith .add), (.minus, .arith .sub)]

/-- The signs between sums. -/
def comparisonSigns : List (Token.Kind × BinaryOp) := [(.equal, .eq), (.notEqual, .ne)]

/-- Two operands under an operator, without spans. -/
def joined (op : BinaryOp) (left right : Expr) : Expr := .binary op left right .nowhere

/-- `unary { ("*" | "/") unary }` -/
def Product : List Token.Kind → Expr → Prop := Chain productSigns (Unary Nested) joined

/-- `product { ("+" | "-") product }` -/
def Sum : List Token.Kind → Expr → Prop := Chain sumSigns (Product Nested) joined

/-- `sum { ("==" | "!=") sum }` -/
def Comparison : List Token.Kind → Expr → Prop := Chain comparisonSigns (Sum Nested) joined

/-- An expression with a budget of nesting levels.  It takes one, and so does
each expression in parentheses. -/
def Expression : (levels : Nat) → List Token.Kind → Expr → Prop
  | 0 => fun _ _ => False
  | levels + 1 => Comparison (Expression levels)

/-! ## The tokens of a value -/

variable {Nested} {read : List Token.Kind} {e : Expr} {bare : Bool}

theorem within_of_mem_signs (k : Token.Kind) (op : BinaryOp)
    (h : (k, op) ∈ productSigns ++ sumSigns ++ comparisonSigns) : Within k := by
  simp only [productSigns, sumSigns, comparisonSigns, List.cons_append, List.nil_append,
    List.mem_cons, Prod.mk.injEq, List.not_mem_nil, or_false] at h
  rcases h with ⟨rfl, _⟩ | ⟨rfl, _⟩ | ⟨rfl, _⟩ | ⟨rfl, _⟩ | ⟨rfl, _⟩ | ⟨rfl, _⟩ <;> trivial

theorem Newlines.within (h : Newlines read) : ∀ k ∈ read, Within k := by
  intro k hk
  rw [h k hk]
  trivial

theorem Measured.within {value : Literal} (h : Measured value bare read e) :
    ∀ k ∈ read, Within k := by
  cases h with
  | plain => exact nofun
  | unit _ hfactor => exact (hfactor.proper fun _ _ => UnitNested.proper).within

theorem Primary.within (hnested : ∀ read e, Nested read e → Proper read)
    (h : Primary Nested bare read e) : ∀ k ∈ read, Within k := by
  cases h with
  | number hk hmeasured =>
    refine List.forall_mem_cons.2 ⟨?_, hmeasured.within⟩
    cases hk <;> trivial
  | constant hk => cases hk <;> exact List.forall_mem_singleton.2 trivial
  | identifier name => exact List.forall_mem_singleton.2 trivial
  | paren hbefore hinner hafter =>
    simp only [List.forall_mem_cons, List.forall_mem_append]
    exact ⟨trivial, hbefore.within, (hnested _ _ hinner).within, hafter.within, trivial, nofun⟩

/-- A primary does not start with a sign or a newline. -/
theorem Primary.starts (h : Primary Nested bare read e) :
    ∃ k rest, read = k :: rest ∧ k ≠ .newline ∧ k ≠ .minus := by
  cases h with
  | number hk _ => cases hk <;> exact ⟨_, _, rfl, nofun, nofun⟩
  | constant hk => cases hk <;> exact ⟨_, _, rfl, nofun, nofun⟩
  | identifier name => exact ⟨_, _, rfl, nofun, nofun⟩
  | paren _ _ _ => exact ⟨_, _, rfl, nofun, nofun⟩

theorem Operand.within (hnested : ∀ read e, Nested read e → Proper read)
    (h : Operand Nested bare read e) : ∀ k ∈ read, Within k := by
  induction h with
  | primary hvalue => exact hvalue.within hnested
  | cast _ hunit ih =>
    obtain ⟨depth, hunit⟩ := hunit
    simp only [List.forall_mem_cons, List.forall_mem_append]
    exact ⟨ih, trivial, hunit.proper.within, trivial, nofun⟩

theorem Operand.starts (h : Operand Nested bare read e) :
    ∃ k rest, read = k :: rest ∧ k ≠ .newline ∧ k ≠ .minus := by
  induction h with
  | primary hvalue => exact hvalue.starts
  | cast _ _ ih =>
    obtain ⟨k, rest, rfl, hk⟩ := ih
    exact ⟨k, _, rfl, hk⟩

theorem Unary.proper (hnested : ∀ read e, Nested read e → Proper read) (h : Unary Nested read e) :
    Proper read := by
  have hoperand {bare : Bool} {read : List Token.Kind} {e : Expr}
      (h : Operand Nested bare read e) : Proper read := by
    obtain ⟨k, rest, heq, hk, _⟩ := h.starts
    exact ⟨h.within hnested, k, rest, heq, hk⟩
  induction h with
  | negate _ ih => exact proper_cons trivial nofun ih.within
  | operand hvalue => exact hoperand hvalue
  | power hbase _ ih =>
    exact (hoperand hbase).append (List.forall_mem_cons.2 ⟨trivial, ih.within⟩)

theorem Product.proper (hnested : ∀ read e, Nested read e → Proper read)
    (h : Product Nested read e) : Proper read :=
  Chain.proper h (fun k op hsign => within_of_mem_signs k op (by simp [hsign]))
    fun _ _ => Unary.proper hnested

theorem Sum.proper (hnested : ∀ read e, Nested read e → Proper read) (h : Sum Nested read e) :
    Proper read :=
  Chain.proper h (fun k op hsign => within_of_mem_signs k op (by simp [hsign]))
    fun _ _ => Product.proper hnested

theorem Comparison.proper (hnested : ∀ read e, Nested read e → Proper read)
    (h : Comparison Nested read e) : Proper read :=
  Chain.proper h (fun k op hsign => within_of_mem_signs k op (by simp [hsign]))
    fun _ _ => Sum.proper hnested

theorem Expression.proper {levels : Nat} (h : Expression levels read e) : Proper read := by
  induction levels generalizing read e with
  | zero => exact h.elim
  | succ levels ih => exact Comparison.proper (fun _ _ => ih) h

end Grammar

namespace Parse

open Grammar

variable {Nested : List Token.Kind → Expr → Prop} {nested exponent unary : Parse Expr}

theorem productOp?_eq_some_iff (k : Token.Kind) (op : BinaryOp) :
    productOp? k = some op ↔ (k, op) ∈ productSigns := by
  cases k <;> simp [productOp?, productSigns, eq_comm]

theorem sumOp?_eq_some_iff (k : Token.Kind) (op : BinaryOp) :
    sumOp? k = some op ↔ (k, op) ∈ sumSigns := by
  cases k <;> simp [sumOp?, sumSigns, eq_comm]

theorem comparisonOp?_eq_some_iff (k : Token.Kind) (op : BinaryOp) :
    comparisonOp? k = some op ↔ (k, op) ∈ comparisonSigns := by
  cases k <;> simp [comparisonOp?, comparisonSigns, eq_comm]

theorem erase_join (op : BinaryOp) (left right : Expr) :
    (Expr.join op left right).erase = joined op left.erase right.erase := rfl

/-! ## What is read is derived -/

/-- What is behind a number is its unit, or nothing. -/
theorem sound_unitSuffix (fuel : Nat) (value : Literal) (span : Span) :
    Sound Expr.erase
      (fun read next e => ∃ bare, Measured value bare read e ∧ (bare = true → next ≠ .caret))
      (unitSuffix fuel (.literal value span)) := by
  intro s
  have hunit (hstart : StartsUnit s.kind) (hkinds : s.kinds = s.kind :: s.advance.kinds) :
      Takes Expr.erase
        (fun read next e => ∃ bare, Measured value bare read e ∧ (bare = true → next ≠ .caret)) s
        ((do
          let unit ← unitFactor fuel
          return .cast (.literal value span) unit (span.join unit.span) : Parse Expr) s) := by
    refine (sound_unitFactor fuel s).bind fun unit s' hfactor => ?_
    obtain ⟨read, hread, bare, hfactor, hnext⟩ := hfactor
    obtain ⟨k, read, rfl, _⟩ := (hfactor.proper fun _ _ => UnitNested.proper).starts
    have hk : s.kind = k := by
      rw [hread] at hkinds
      exact (List.cons.inj hkinds).1.symm
    exact ⟨k :: read, hread, bare, .unit (hk ▸ hstart) hfactor, hnext⟩
  unfold unitSuffix
  rw [peek_bind]
  cases hkind : s.kind with
  | identifier name =>
    rw [hkind] at hunit
    exact hunit (.identifier name) (TokenStream.kinds_of_kind hkind nofun)
  | leftParen =>
    rw [hkind] at hunit
    exact hunit .leftParen (TokenStream.kinds_of_kind hkind nofun)
  | _ => exact ⟨[], rfl, false, .plain, nofun⟩

/-- Casts behind an operand make another operand of it. -/
theorem sound_casts (fuel : Nat) {s₀ s : TokenStream} {value : Expr} {bare : Bool}
    {read : List Token.Kind} (hread : s₀.kinds = read ++ s.kinds)
    (hvalue : Operand Nested bare read value.erase) (hnext : bare = true → s.kind ≠ .caret) :
    Takes Expr.erase
      (fun read next e => ∃ bare, Operand Nested bare read e ∧ (bare = true → next ≠ .caret)) s₀
      (casts fuel value s) := by
  induction fuel generalizing s value bare read with
  | zero => exact ⟨read, hread, bare, hvalue, hnext⟩
  | succ fuel ih =>
    unfold casts
    rw [eat_bind]
    split
    · next hopen =>
        refine (sound_unitExpr fuel s.advance).bind fun unit s' hunit => ?_
        obtain ⟨read', hread', hunit⟩ := hunit
        rw [expect_bind]
        split
        · next hclose =>
            have hlonger : s₀.kinds =
                (read ++ .leftBracket :: (read' ++ [.rightBracket])) ++ s'.advance.kinds := by
              rw [hread, TokenStream.kinds_of_kind hopen nofun, hread',
                TokenStream.kinds_of_kind hclose nofun]
              simp
            exact ih hlonger (hvalue.cast ⟨fuel, hunit⟩) nofun
        · rfl
    · exact ⟨read, hread, bare, hvalue, hnext⟩

section Soundness

variable (hnested : Sound Expr.erase (fun read _ e => Nested read e) nested)

include hnested

theorem sound_primary (fuel : Nat) :
    Sound Expr.erase
      (fun read next e => ∃ bare, Primary Nested bare read e ∧ (bare = true → next ≠ .caret))
      (primary fuel nested) := by
  intro s
  have hnumber {k : Token.Kind} {value : Literal} (hk : Number k value)
      (hkinds : s.kinds = k :: s.advance.kinds) (span : Span) :
      Takes Expr.erase
        (fun read next e => ∃ bare, Primary Nested bare read e ∧ (bare = true → next ≠ .caret)) s
        (unitSuffix fuel (.literal value span) s.advance) := by
    refine (sound_unitSuffix fuel value span s.advance).mono fun e s' hmeasured => ?_
    obtain ⟨read, hread, bare, hmeasured, hnext⟩ := hmeasured
    exact ⟨k :: read, by rw [hkinds, hread]; rfl, bare, .number hk hmeasured, hnext⟩
  unfold primary
  rw [peek_bind]
  cases hkind : s.kind with
  | integer n => exact hnumber (.integer n) (TokenStream.kinds_of_kind hkind nofun) _
  | real x => exact hnumber (.real x) (TokenStream.kinds_of_kind hkind nofun) _
  | string text =>
    exact ⟨_, TokenStream.kinds_of_kind hkind nofun, false, .constant (.string text), nofun⟩
  | character c =>
    exact ⟨_, TokenStream.kinds_of_kind hkind nofun, false, .constant (.character c), nofun⟩
  | keyword word =>
    cases word with
    | true => exact ⟨_, TokenStream.kinds_of_kind hkind nofun, false, .constant .true, nofun⟩
    | false => exact ⟨_, TokenStream.kinds_of_kind hkind nofun, false, .constant .false, nofun⟩
    | none => exact ⟨_, TokenStream.kinds_of_kind hkind nofun, false, .constant .none, nofun⟩
  | identifier name =>
    exact ⟨_, TokenStream.kinds_of_kind hkind nofun, false, .identifier name, nofun⟩
  | leftParen =>
    have hkinds := TokenStream.kinds_of_kind hkind nofun
    obtain ⟨before, hbefore, hskipped⟩ := TokenStream.kinds_eq_newlines_append s.advance
    refine (hnested s.advance.skipNewlines).bind fun inner s' hinner => ?_
    obtain ⟨read, hread, hinner⟩ := hinner
    obtain ⟨after, hafter, hskipped'⟩ := TokenStream.kinds_eq_newlines_append s'
    rw [skipNewlines_bind, expect_bind]
    split
    · next hclose =>
        refine ⟨_, ?_, false, .paren hbefore hinner hafter, nofun⟩
        rw [hkinds, hskipped, hread, hskipped', TokenStream.kinds_of_kind hclose nofun]
        simp
    · rfl
  | _ => rfl

theorem sound_operand (fuel : Nat) :
    Sound Expr.erase
      (fun read next e => ∃ bare, Operand Nested bare read e ∧ (bare = true → next ≠ .caret))
      (operand fuel nested) := by
  intro s
  refine (sound_primary hnested fuel s).bind fun value s' hvalue => ?_
  obtain ⟨read, hread, bare, hvalue, hnext⟩ := hvalue
  exact sound_casts fuel hread (.primary hvalue) hnext

theorem sound_power (fuel : Nat)
    (hexponent : Sound Expr.erase (fun read _ e => Unary Nested read e) exponent) :
    Sound Expr.erase (fun read _ e => Unary Nested read e) (power fuel nested exponent) := by
  intro s
  refine (sound_operand hnested fuel s).bind fun base s' hbase => ?_
  obtain ⟨read, hread, bare, hbase, hnext⟩ := hbase
  rw [eat_bind]
  split
  · next hcaret =>
      -- a bare operand would have taken the sign itself
      obtain rfl : bare = false := by
        cases bare with
        | false => rfl
        | true => exact absurd hcaret (hnext rfl)
      refine (hexponent s'.advance).bind fun value s'' hvalue => ?_
      obtain ⟨read', hread', hvalue⟩ := hvalue
      refine ⟨read ++ .caret :: read', ?_, .power hbase hvalue⟩
      rw [hread, TokenStream.kinds_of_kind hcaret nofun, hread']
      simp
  · exact ⟨read, hread, .operand hbase⟩

end Soundness

theorem sound_comparison (hunary : Sound Expr.erase (fun read _ e => Unary Nested read e) unary)
    (fuel : Nat) :
    Sound Expr.erase (fun read _ e => Comparison Nested read e) (comparison fuel unary) := by
  have hproduct := sound_leftAssoc productOp?_eq_some_iff rfl erase_join hunary fuel
  have hsum := sound_leftAssoc sumOp?_eq_some_iff rfl erase_join hproduct fuel
  exact sound_leftAssoc comparisonOp?_eq_some_iff rfl erase_join hsum fuel

theorem sound_nestedWith {unary : (levels : Nat) → Parse Expr}
    (hunary : ∀ levels, Sound Expr.erase (fun read _ e => Unary (Expression levels) read e)
      (unary levels)) (fuel levels : Nat) :
    Sound Expr.erase (fun read _ e => Expression levels read e) (nestedWith fuel unary levels) := by
  cases levels with
  | zero =>
    intro s
    rfl
  | succ levels => exact sound_comparison (hunary levels) fuel

theorem sound_unary (fuel levels : Nat) :
    Sound Expr.erase (fun read _ e => Unary (Expression levels) read e) (Parse.unary fuel levels) := by
  induction fuel generalizing levels with
  | zero =>
    intro s
    rfl
  | succ fuel ih =>
    intro s
    have hpower := sound_power (sound_nestedWith ih fuel levels) fuel (ih levels) s
    unfold Parse.unary
    rw [peek_bind]
    cases hkind : s.kind with
    | minus =>
      refine (ih levels s.advance).bind fun value s' hvalue => ?_
      obtain ⟨read, hread, hvalue⟩ := hvalue
      refine ⟨.minus :: read, ?_, .negate hvalue⟩
      rw [TokenStream.kinds_of_kind hkind nofun, hread]
      rfl
    | _ => exact hpower

/-- An expression that is read is derived. -/
theorem sound_expression (fuel levels : Nat) :
    Sound Expr.erase (fun read _ e => Expression levels read e) (expression fuel levels) :=
  sound_nestedWith (sound_unary fuel) fuel levels

/-! ## What is derived is read -/

/-- A value does not take this token as the start of its unit or of a cast. -/
def EndsOperand (next : Token.Kind) : Prop := ¬ StartsUnit next ∧ next ≠ .leftBracket

/-- A factor does not go on with this token. -/
def EndsFactor (next : Token.Kind) : Prop := EndsOperand next ∧ next ≠ .caret

/-- An expression does not go on with this token. -/
def EndsExpression (next : Token.Kind) : Prop :=
  ((EndsFactor next ∧ productOp? next = none) ∧ sumOp? next = none) ∧ comparisonOp? next = none

theorem endsExpression_rightParen : EndsExpression .rightParen :=
  ⟨⟨⟨⟨⟨nofun, nofun⟩, nofun⟩, rfl⟩, rfl⟩, rfl⟩

theorem endsExpression_newline : EndsExpression .newline :=
  ⟨⟨⟨⟨⟨nofun, nofun⟩, nofun⟩, rfl⟩, rfl⟩, rfl⟩

theorem complete_unitSuffix (fuel : Nat) (value : Literal) (span : Span) :
    Complete (fuel + 1) Expr.erase
      (fun read next e => ∃ bare, Measured value bare read e ∧ ¬ StartsUnit next ∧
        (bare = true → next ≠ .caret))
      (unitSuffix fuel (.literal value span)) := by
  intro s read rest e hkinds hbound he
  obtain ⟨bare, hmeasured, hstart, hnext⟩ := he
  unfold unitSuffix
  rw [peek_bind]
  cases hmeasured with
  | plain =>
    have hkind : s.kind = rest.headD .endOfFile := by
      rw [TokenStream.kind_eq, hkinds]
      rfl
    rw [← hkind] at hstart
    cases hcase : s.kind with
    | identifier name => exact absurd (hcase ▸ .identifier name) hstart
    | leftParen => exact absurd (hcase ▸ .leftParen) hstart
    | _ => exact ⟨rfl, hkinds⟩
  | @unit depth _ k read unit hk hfactor =>
    have hread := complete_unitFactor depth fuel s (k :: read) rest unit hkinds hbound
      ⟨bare, hfactor, hnext⟩
    have hcast : Yields Expr.erase (.cast (.literal value .nowhere) unit .nowhere) rest
        ((do
          let unit ← unitFactor fuel
          return .cast (.literal value span) unit (span.join unit.span) : Parse Expr) s) := by
      refine hread.bind fun unit' s' hunit => ?_
      exact ⟨congrArg (Expr.cast (.literal value .nowhere) · .nowhere) hunit.1, hunit.2⟩
    rw [TokenStream.kind_of_kinds hkinds]
    cases hk <;> exact hcast

section Completeness

variable {fuel : Nat} (hproper : ∀ read e, Nested read e → Proper read)
  (hnested : Complete fuel Expr.erase (fun read next e => Nested read e ∧ EndsExpression next)
    nested)

include hproper hnested

theorem complete_primary :
    Complete (fuel + 1) Expr.erase
      (fun read next e => ∃ bare, Primary Nested bare read e ∧ ¬ StartsUnit next ∧
        (bare = true → next ≠ .caret))
      (primary fuel nested) := by
  intro s read rest e hkinds hbound he
  obtain ⟨bare, hprimary, hstart, hnext⟩ := he
  have hlength : s.advance.kinds.length ≤ fuel := by
    rw [TokenStream.kinds_advance, List.length_tail]
    omega
  unfold primary
  rw [peek_bind]
  cases hprimary with
  | @number k value _ read e hk hmeasured =>
    have hadvanced : s.advance.kinds = read ++ rest :=
      TokenStream.kinds_advance_of_cons hkinds
    rw [TokenStream.kind_of_kinds hkinds]
    cases hk with
    | integer n =>
      exact complete_unitSuffix fuel _ _ s.advance read rest e hadvanced (by omega)
        ⟨bare, hmeasured, hstart, hnext⟩
    | real x =>
      exact complete_unitSuffix fuel _ _ s.advance read rest e hadvanced (by omega)
        ⟨bare, hmeasured, hstart, hnext⟩
  | constant hk =>
    have hadvanced : s.advance.kinds = rest :=
      TokenStream.kinds_advance_of_cons hkinds
    rw [TokenStream.kind_of_kinds hkinds]
    cases hk <;> exact ⟨rfl, hadvanced⟩
  | identifier name =>
    rw [TokenStream.kind_of_kinds hkinds]
    exact ⟨rfl, TokenStream.kinds_advance_of_cons hkinds⟩
  | @paren before read after e hbefore hinner hafter =>
    have hadvanced : s.advance.kinds = before ++ (read ++ (after ++ .rightParen :: rest)) := by
      rw [TokenStream.kinds_advance, hkinds]
      simp
    have hskipped : s.advance.skipNewlines.kinds = read ++ (after ++ .rightParen :: rest) := by
      refine TokenStream.kinds_skipNewlines_of_append hbefore hadvanced ?_
      obtain ⟨k, more, rfl, hk⟩ := (hproper _ _ hinner).starts
      exact hk
    have hlength' : s.advance.skipNewlines.kinds.length ≤ fuel := by
      rw [hskipped]
      rw [hadvanced, List.length_append] at hlength
      omega
    have hclose : EndsExpression ((after ++ .rightParen :: rest).headD .endOfFile) := by
      cases after with
      | nil => exact endsExpression_rightParen
      | cons k more =>
        rw [hafter k List.mem_cons_self]
        exact endsExpression_newline
    rw [TokenStream.kind_of_kinds hkinds]
    refine (hnested _ read _ e hskipped hlength' ⟨hinner, hclose⟩).bind fun inner s' hread => ?_
    obtain ⟨hinner', hs'⟩ := hread
    have hskipped' := TokenStream.kinds_skipNewlines_of_append hafter hs' nofun
    rw [skipNewlines_bind, expect_bind, if_pos (TokenStream.kind_of_kinds hskipped')]
    refine ⟨congrArg (Expr.paren · .nowhere) hinner', ?_⟩
    exact TokenStream.kinds_advance_of_cons hskipped'

/-- Reading an operand gets to its end, and then looks for casts. -/
theorem operand_reaches {bare : Bool} {read : List Token.Kind} {e : Expr}
    (h : Operand Nested bare read e) {s : TokenStream} {rest : List Token.Kind}
    (hkinds : s.kinds = read ++ rest) (hbound : s.kinds.length ≤ fuel + 1)
    (hstart : ¬ StartsUnit (rest.headD .endOfFile))
    (hnext : bare = true → rest.headD .endOfFile ≠ .caret) :
    ∃ e' s' budget, operand fuel nested s = casts budget e' s' ∧ e'.erase = e ∧
      s'.kinds = rest ∧ rest.length ≤ budget := by
  induction h generalizing rest with
  | @primary bare read e hprimary =>
    obtain ⟨e', s', heq, he', hs'⟩ := (complete_primary hproper hnested s read rest e hkinds hbound
      ⟨bare, hprimary, hstart, hnext⟩).exists_ok
    refine ⟨e', s', fuel, bind_of_ok heq, he', hs', ?_⟩
    obtain ⟨k, more, rfl, _⟩ := hprimary.starts
    rw [hkinds] at hbound
    simp only [List.length_append, List.length_cons] at hbound
    omega
  | @cast bare read read' e unit _ hunit ih =>
    have hsplit : s.kinds = read ++ (.leftBracket :: (read' ++ [.rightBracket]) ++ rest) := by
      rw [hkinds, List.append_assoc]
    obtain ⟨e', s₁, budget, heq, he', hs₁, hbudget⟩ := ih hsplit nofun nofun
    obtain ⟨budget, rfl⟩ : ∃ n, budget = n + 1 :=
      Nat.exists_eq_add_one_of_ne_zero (by simp at hbudget; omega)
    obtain ⟨depth, hunit⟩ := hunit
    have hadvanced : s₁.advance.kinds = read' ++ .rightBracket :: rest := by
      rw [TokenStream.kinds_advance, hs₁]
      simp
    have hlength : s₁.advance.kinds.length ≤ budget := by
      rw [hadvanced]
      simp only [List.length_append, List.length_cons, List.length_nil] at hbudget ⊢
      omega
    obtain ⟨unit', s₂, heq', hunit', hs₂⟩ := (complete_unitExpr depth budget s₁.advance read' _ unit
      hadvanced hlength ⟨hunit, closesUnit_rightBracket⟩).exists_ok
    refine ⟨.cast e' unit' (e'.span.join s₂.advance.previous), s₂.advance, budget, ?_, ?_, ?_, ?_⟩
    · rw [heq, casts, eat_bind, if_pos (TokenStream.kind_of_kinds hs₁)]
      simp only [if_true]
      rw [bind_of_ok heq', expect_bind, if_pos (TokenStream.kind_of_kinds hs₂)]
      rfl
    · rw [← he', ← hunit']
      rfl
    · exact TokenStream.kinds_advance_of_cons hs₂
    · simp only [List.length_append, List.length_cons] at hbudget
      omega

theorem complete_operand :
    Complete (fuel + 1) Expr.erase
      (fun read next e => ∃ bare, Operand Nested bare read e ∧ EndsOperand next ∧
        (bare = true → next ≠ .caret))
      (operand fuel nested) := by
  intro s read rest e hkinds hbound he
  obtain ⟨bare, hoperand, hends, hnext⟩ := he
  obtain ⟨e', s', budget, heq, he', hs', _⟩ :=
    operand_reaches hproper hnested hoperand hkinds hbound hends.1 hnext
  rw [heq]
  cases budget with
  | zero => exact ⟨he', hs'⟩
  | succ budget =>
    rw [casts, eat_bind, TokenStream.kind_eq, hs', if_neg hends.2]
    exact ⟨he', hs'⟩

/-- An operand without an exponent is read as it is. -/
theorem power_of_operand {s : TokenStream} {bare : Bool} {read rest : List Token.Kind} {e : Expr}
    (h : Operand Nested bare read e) (hkinds : s.kinds = read ++ rest)
    (hbound : s.kinds.length ≤ fuel + 1) (hends : EndsFactor (rest.headD .endOfFile)) :
    Yields Expr.erase e rest (power fuel nested exponent s) := by
  refine (complete_operand hproper hnested s read rest e hkinds hbound
    ⟨bare, h, hends.1, fun _ => hends.2⟩).bind fun e' s' hread => ?_
  rw [eat_bind, TokenStream.kind_eq, hread.2, if_neg hends.2]
  exact hread

/-- An operand with an exponent is read with it. -/
theorem power_of_caret
    (hexponent : Complete fuel Expr.erase (fun read next e => Unary Nested read e ∧ EndsFactor next)
      exponent) {s : TokenStream} {read read' rest : List Token.Kind} {base value : Expr}
    (hbase : Operand Nested false read base) (hvalue : Unary Nested read' value)
    (hkinds : s.kinds = read ++ .caret :: read' ++ rest) (hbound : s.kinds.length ≤ fuel + 1)
    (hends : EndsFactor (rest.headD .endOfFile)) :
    Yields Expr.erase (.binary (.arith .pow) base value .nowhere) rest
      (power fuel nested exponent s) := by
  have hsplit : s.kinds = read ++ (.caret :: read' ++ rest) := by
    rw [hkinds, List.append_assoc]
  refine (complete_operand hproper hnested s read _ base hsplit hbound
    ⟨false, hbase, ⟨nofun, nofun⟩, nofun⟩).bind fun base' s' hread => ?_
  obtain ⟨hbase', hs'⟩ := hread
  have hadvanced : s'.advance.kinds = read' ++ rest :=
    TokenStream.kinds_advance_of_cons hs'
  have hlength : s'.advance.kinds.length ≤ fuel := by
    rw [hadvanced]
    rw [hsplit] at hbound
    simp only [List.length_append, List.length_cons] at hbound ⊢
    omega
  rw [eat_bind, if_pos (TokenStream.kind_of_kinds hs')]
  refine (hexponent s'.advance read' rest value hadvanced hlength ⟨hvalue, hends⟩).bind
    fun value' s'' hread' => ?_
  obtain ⟨hvalue', hs''⟩ := hread'
  refine ⟨?_, hs''⟩
  rw [← hbase', ← hvalue']
  rfl

end Completeness

/-- A sign of one level ends what is read at the levels inside it. -/
theorem endsFactor_of_mem_signs (k : Token.Kind) (op : BinaryOp)
    (h : (k, op) ∈ productSigns ++ sumSigns ++ comparisonSigns) : EndsFactor k := by
  simp only [productSigns, sumSigns, comparisonSigns, List.cons_append, List.nil_append,
    List.mem_cons, Prod.mk.injEq, List.not_mem_nil, or_false] at h
  rcases h with ⟨rfl, _⟩ | ⟨rfl, _⟩ | ⟨rfl, _⟩ | ⟨rfl, _⟩ | ⟨rfl, _⟩ | ⟨rfl, _⟩ <;>
    exact ⟨⟨nofun, nofun⟩, nofun⟩

theorem productOp?_of_mem_signs (k : Token.Kind) (op : BinaryOp)
    (h : (k, op) ∈ sumSigns ++ comparisonSigns) : productOp? k = none := by
  simp only [sumSigns, comparisonSigns, List.cons_append, List.nil_append,
    List.mem_cons, Prod.mk.injEq, List.not_mem_nil, or_false] at h
  rcases h with ⟨rfl, _⟩ | ⟨rfl, _⟩ | ⟨rfl, _⟩ | ⟨rfl, _⟩ <;> rfl

theorem sumOp?_of_mem_signs (k : Token.Kind) (op : BinaryOp) (h : (k, op) ∈ comparisonSigns) :
    sumOp? k = none := by
  simp only [comparisonSigns, List.mem_cons, Prod.mk.injEq, List.not_mem_nil, or_false] at h
  rcases h with ⟨rfl, _⟩ | ⟨rfl, _⟩ <;> rfl

theorem complete_comparison {bound fuel : Nat} (hfuel : bound ≤ fuel + 1)
    (hproper : ∀ read e, Nested read e → Proper read)
    (hunary : Complete bound Expr.erase (fun read next e => Unary Nested read e ∧ EndsFactor next)
      unary) :
    Complete bound Expr.erase (fun read next e => Comparison Nested read e ∧ EndsExpression next)
      (comparison fuel unary) := by
  have hproduct := complete_leftAssoc productOp?_eq_some_iff erase_join
    (fun k op hsign => endsFactor_of_mem_signs k op (by simp [hsign]))
    (fun _ _ h => (Unary.proper hproper h).ne_nil) hunary hfuel
  have hsum := complete_leftAssoc sumOp?_eq_some_iff erase_join
    (fun k op hsign => ⟨endsFactor_of_mem_signs k op (by simp [hsign]),
      productOp?_of_mem_signs k op (by simp [hsign])⟩)
    (fun _ _ h => (Product.proper hproper h).ne_nil) hproduct hfuel
  have hcomparison := complete_leftAssoc comparisonOp?_eq_some_iff erase_join
    (fun k op hsign => ⟨⟨endsFactor_of_mem_signs k op (by simp [hsign]),
      productOp?_of_mem_signs k op (by simp [hsign])⟩, sumOp?_of_mem_signs k op hsign⟩)
    (fun _ _ h => (Sum.proper hproper h).ne_nil) hsum hfuel
  exact hcomparison

theorem complete_nestedWith {fuel : Nat} {unary : (levels : Nat) → Parse Expr}
    (hunary : ∀ levels, Complete fuel Expr.erase
      (fun read next e => Unary (Expression levels) read e ∧ EndsFactor next) (unary levels))
    (levels : Nat) :
    Complete fuel Expr.erase (fun read next e => Expression levels read e ∧ EndsExpression next)
      (nestedWith fuel unary levels) := by
  cases levels with
  | zero =>
    intro s read rest e _ _ he
    exact he.1.elim
  | succ levels =>
    exact complete_comparison (Nat.le_succ fuel) (fun _ _ => Expression.proper) (hunary levels)

theorem complete_unary (fuel levels : Nat) :
    Complete fuel Expr.erase
      (fun read next e => Unary (Expression levels) read e ∧ EndsFactor next)
      (Parse.unary fuel levels) := by
  induction fuel generalizing levels with
  | zero =>
    intro s read rest e hkinds hbound he
    have hpos := List.length_pos_iff.2 (he.1.proper fun _ _ => Expression.proper).ne_nil
    rw [hkinds, List.length_append] at hbound
    omega
  | succ fuel ih =>
    have hproper : ∀ read e, Expression levels read e → Proper read := fun _ _ => Expression.proper
    have hnested := complete_nestedWith ih levels
    intro s read rest e hkinds hbound he
    obtain ⟨he, hends⟩ := he
    -- what does not start with a sign is read as a power
    have hpower (hstarts : ∃ k more, read = k :: more ∧ k ≠ .newline ∧ k ≠ .minus)
        (hread : Yields Expr.erase e rest
          (power fuel (nestedWith fuel (Parse.unary fuel) levels) (Parse.unary fuel levels) s)) :
        Yields Expr.erase e rest (Parse.unary (fuel + 1) levels s) := by
      obtain ⟨k, more, rfl, _, hminus⟩ := hstarts
      unfold Parse.unary
      rw [peek_bind]
      cases hkind : s.kind with
      | minus =>
        rw [TokenStream.kind_of_kinds hkinds] at hkind
        exact absurd hkind hminus
      | _ => exact hread
    cases he with
    | @negate read e he =>
      have hadvanced : s.advance.kinds = read ++ rest :=
        TokenStream.kinds_advance_of_cons hkinds
      have hlength : s.advance.kinds.length ≤ fuel := by
        rw [TokenStream.kinds_advance, List.length_tail]
        omega
      unfold Parse.unary
      rw [peek_bind, TokenStream.kind_of_kinds hkinds]
      refine (ih levels s.advance read rest e hadvanced hlength ⟨he, hends⟩).bind
        fun e' s' hread => ?_
      exact ⟨congrArg (Expr.negate · .nowhere) hread.1, hread.2⟩
    | operand hoperand =>
      exact hpower hoperand.starts
        (power_of_operand hproper hnested hoperand hkinds hbound hends)
    | power hbase hvalue =>
      refine hpower ?_ (power_of_caret hproper hnested (ih levels) hbase hvalue hkinds hbound hends)
      obtain ⟨k, more, rfl, hk⟩ := hbase.starts
      exact ⟨k, _, rfl, hk⟩

/-- An expression that is derived is read. -/
theorem complete_expression (fuel levels : Nat) :
    Complete fuel Expr.erase (fun read next e => Expression levels read e ∧ EndsExpression next)
      (expression fuel levels) :=
  complete_nestedWith (complete_unary fuel) levels

end Parse

end UnitScript
