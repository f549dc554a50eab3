import UnitScript.Proofs.Grammar.Progress

/-!
# Reading two streams side by side

How far an expression is read and what comes out of it depends on little: on the
tokens up to the first one that ends a line, and on newlines inside parentheses.
So two streams that agree in this are read alike, and so is one stream with
different budgets of fuel, as long as both cover the tokens that are left.

* `Parse.Parallel` is what a relation between streams has to keep step by step.  It
  is indexed by the number of open parentheses, because only inside of them
  newlines are passed over.
* `Parse.Together` says that two results are alike, `Parse.InParallel` that two
  parsers read alike.
* `parallel_unitExpr`, `parallel_expression` and `parallel_simpleStatement` are the
  results.
* `expressionFrom` is `expression` with any answer where the fuel ends.  A stream and
  itself give that neither this answer nor the fuel matters: `unitExprFrom_fuel`,
  `expressionFrom_fuel` and `simpleStatement_fuel`.
-/

namespace UnitScript

/-- No expression goes on with a token of this kind, and none starts with it. -/
def Token.Kind.EndsLine (k : Token.Kind) : Prop := k = .newline ∨ k = .endOfFile

instance (k : Token.Kind) : Decidable k.EndsLine :=
  inferInstanceAs (Decidable (k = .newline ∨ k = .endOfFile))

namespace TokenStream

theorem ne_endOfFile_of_not_endsLine {s : TokenStream} (h : ¬s.kind.EndsLine) :
    s.kind ≠ .endOfFile :=
  fun heq => h (.inr heq)

/-- Where a line does not end, there is a token. -/
theorem length_pos_of_not_endsLine {s : TokenStream} (h : ¬s.kind.EndsLine) :
    0 < s.rest.length :=
  Nat.zero_lt_of_lt (length_advance_lt (ne_endOfFile_of_not_endsLine h))

/-- Behind the last token the line ends. -/
theorem endsLine_of_length_le {s : TokenStream} (h : s.rest.length ≤ 0) : s.kind.EndsLine := by
  rw [TokenStream.kind, List.eq_nil_of_length_eq_zero (Nat.le_zero.1 h)]
  exact .inr rfl

end TokenStream

namespace Parse

variable {α β ω : Type}

/-! ## Where the fuel ends

The two recursions of the grammar, with any answer where the fuel ends.  That
answer does not matter, as long as it is the right one where no token is left. -/

/-- `unitExpr` with an answer of its own where the fuel ends. -/
def unitExprFrom (last : Parse UnitExpr) : (fuel : Nat) → Parse UnitExpr
  | 0 => last
  | fuel + 1 => leftAssoc fuel unitOp? (unitFactorWith (unitExprFrom last fuel)) .join

/-- One level of `unary`; `factor` reads what nests in it. -/
def unaryStep (fuel : Nat) (factor : (levels : Nat) → Parse Expr) (levels : Nat) : Parse Expr := do
  match ← peek with
  | .minus => do
      let minus ← advance
      let value ← factor levels
      return .negate value (minus.join value.span)
  | _ => power fuel (nestedWith fuel factor levels) (factor levels)

/-- `unary` with an answer of its own where the fuel ends. -/
def unaryFrom (last : (levels : Nat) → Parse Expr) : (fuel levels : Nat) → Parse Expr
  | 0 => last
  | fuel + 1 => unaryStep fuel (unaryFrom last fuel)

/-- `expression` with an answer of its own where the fuel ends. -/
def expressionFrom (last : (levels : Nat) → Parse Expr) (fuel levels : Nat) : Parse Expr :=
  nestedWith fuel (unaryFrom last fuel) levels

/-- Where no token is left, the answer is that something was expected. -/
def Fails (expected : Token.Kind → Problem) (last : Parse α) : Prop :=
  ∀ s : TokenStream, s.rest.length ≤ 0 → last s = .error ⟨expected s.kind, s.span⟩ s

theorem fails_fail (expected : Token.Kind → Problem) :
    Fails expected (do fail (expected (← peek)) : Parse α) :=
  fun _ _ => rfl

theorem unitExpr_eq (fuel : Nat) :
    unitExpr fuel = unitExprFrom (do fail (.expectedUnit (← peek))) fuel := by
  induction fuel with
  | zero => rfl
  | succ fuel ih => rw [unitExpr, unitExprFrom, ih]

theorem unary_eq (fuel : Nat) :
    unary fuel = unaryFrom (fun _ => do fail (.expectedExpression (← peek))) fuel := by
  induction fuel with
  | zero => rfl
  | succ fuel ih =>
    rw [unaryFrom, ← ih]
    rfl

theorem expression_eq (fuel levels : Nat) :
    expression fuel levels =
      expressionFrom (fun _ => do fail (.expectedExpression (← peek))) fuel levels := by
  rw [expression, expressionFrom, unary_eq]

/-! ## Relations between streams -/

/-- The relation `R d`, where `d` parentheses are open, is kept by steps that are
taken on both sides.  Unless a line ends on both sides, the next token is the same,
and what is complained about there is related by `Same`. -/
structure Parallel (Same : Complaint → Complaint → Prop)
    (R : (opened : Nat) → TokenStream → TokenStream → Prop) : Prop where
  kinds : ∀ {d s t}, R d s t → s.kind = t.kind ∨ s.kind.EndsLine ∧ t.kind.EndsLine
  spans : ∀ {d s t}, R d s t → s.kind = t.kind → ¬s.kind.EndsLine → s.span = t.span
  complains : ∀ {d s t}, R d s t → ∀ problem : Token.Kind → Problem,
    Same ⟨problem s.kind, s.span⟩ ⟨problem t.kind, t.span⟩
  advance : ∀ {d s t k}, R d s t → s.kind = t.kind → ¬s.kind.EndsLine → s.kind = k →
    k ≠ .leftParen → k ≠ .rightParen → R d s.advance t.advance
  opens : ∀ {d s t}, R d s t → s.kind = .leftParen → t.kind = .leftParen →
    R (d + 1) s.advance t.advance
  closes : ∀ {d s t}, R (d + 1) s t → s.kind = .rightParen → t.kind = .rightParen →
    R d s.advance t.advance
  newlines : ∀ {d s t}, R (d + 1) s t → R (d + 1) s.skipNewlines t.skipNewlines

variable (Same : Complaint → Complaint → Prop)
  (R : (opened : Nat) → TokenStream → TokenStream → Prop)

/-- Both readings gave the same value, with fewer than `n` and `m` tokens left, or
both failed. -/
def Together (d n m : Nat) (result result' : EStateM.Result Complaint TokenStream α) : Prop :=
  match result, result' with
  | .ok value s, .ok value' t =>
      value = value' ∧ R d s t ∧ s.rest.length < n ∧ t.rest.length < m
  | .error complaint s, .error complaint' t => Same complaint complaint' ∧ ∃ d', R d' s t
  | _, _ => False

/-- Both parsers read alike where at most `f` and `g` tokens are left.  They read at
least one token if they do not fail. -/
def InParallel (d f g : Nat) (p q : Parse α) : Prop :=
  ∀ s t, R d s t → s.rest.length ≤ f → t.rest.length ≤ g →
    Together Same R d s.rest.length t.rest.length (p s) (q t)

variable {Same R} {d d' n n' m m' : Nat} {s t : TokenStream}

theorem Together.cases {result result' : EStateM.Result Complaint TokenStream α}
    (h : Together Same R d n m result result') :
    (∃ value s t, result = .ok value s ∧ result' = .ok value t ∧ R d s t ∧
      s.rest.length < n ∧ t.rest.length < m) ∨
    ∃ complaint complaint' s t, result = .error complaint s ∧ result' = .error complaint' t ∧
      Same complaint complaint' ∧ ∃ d', R d' s t := by
  cases result with
  | ok value s =>
    cases result' with
    | ok value' t =>
      obtain ⟨rfl, hR⟩ := h
      exact .inl ⟨value, s, t, rfl, rfl, hR⟩
    | error complaint t => exact h.elim
  | error complaint s =>
    cases result' with
    | ok value t => exact h.elim
    | error complaint' t => exact .inr ⟨complaint, complaint', s, t, rfl, rfl, h⟩

theorem Together.bind {p q : Parse α} {next next' : α → Parse β}
    (h : Together Same R d n m (p s) (q t))
    (hnext : ∀ value s' t', R d s' t' → s'.rest.length < n → t'.rest.length < m →
      Together Same R d' n' m' (next value s') (next' value t')) :
    Together Same R d' n' m' ((p >>= next) s) ((q >>= next') t) := by
  show Together Same R d' n' m' (EStateM.bind p next s) (EStateM.bind q next' t)
  unfold EStateM.bind
  rcases h.cases with ⟨value, s', t', hp, hq, hR, hs, ht⟩ | ⟨_, _, s', t', hp, hq, hfailed⟩
  · rw [hp, hq]
    exact hnext value s' t' hR hs ht
  · rw [hp, hq]
    exact hfailed

theorem Together.mono {result result' : EStateM.Result Complaint TokenStream α}
    (h : Together Same R d n m result result') (hn : n ≤ n') (hm : m ≤ m') :
    Together Same R d n' m' result result' := by
  cases result <;> cases result' <;> try exact h
  obtain ⟨hvalue, hR, hs, ht⟩ := h
  exact ⟨hvalue, hR, Nat.lt_of_lt_of_le hs hn, Nat.lt_of_lt_of_le ht hm⟩

/-! ## Single steps -/

section Steps

variable (hR : Parallel Same R) (h : R d s t)

include hR h

theorem Parallel.endsLine_iff : s.kind.EndsLine ↔ t.kind.EndsLine := by
  rcases hR.kinds h with heq | ⟨hs, ht⟩
  · rw [heq]
  · exact iff_of_true hs ht

theorem Parallel.kind_eq (hs : ¬s.kind.EndsLine) : s.kind = t.kind :=
  (hR.kinds h).resolve_right fun hends => hs hends.1

theorem Parallel.kind_eq_iff {k : Token.Kind} (hk : ¬k.EndsLine) : s.kind = k ↔ t.kind = k := by
  rcases hR.kinds h with heq | ⟨hs, ht⟩
  · rw [heq]
  · constructor
    · rintro rfl
      exact absurd hs hk
    · rintro rfl
      exact absurd ht hk

theorem together_fail (problem : Problem) :
    Together Same R d n m ((fail problem : Parse α) s) (fail problem t) :=
  ⟨hR.complains h fun _ => problem, d, h⟩

/-- Where a token is read on both sides, it is the same. -/
theorem Parallel.read (heq : s.kind = t.kind) (hs : ¬s.kind.EndsLine) :
    t.span = s.span ∧ s.advance.previous = s.span ∧ t.advance.previous = s.span ∧
      s.advance.rest.length < s.rest.length ∧ t.advance.rest.length < t.rest.length := by
  have hspan := hR.spans h heq hs
  have hend := TokenStream.ne_endOfFile_of_not_endsLine hs
  have hend' : t.kind ≠ .endOfFile := heq ▸ hend
  exact ⟨hspan.symm, TokenStream.previous_advance hend,
    (TokenStream.previous_advance hend').trans hspan.symm, TokenStream.length_advance_lt hend,
    TokenStream.length_advance_lt hend'⟩

/-- A token that stands for itself is read on both sides. -/
theorem together_advance (heq : s.kind = t.kind) (hs : ¬s.kind.EndsLine) {k : Token.Kind}
    (hk : s.kind = k) (hopen : k ≠ .leftParen) (hclose : k ≠ .rightParen) (make : Span → α) :
    Together Same R d s.rest.length t.rest.length ((do return make (← advance) : Parse α) s)
      ((do return make (← advance) : Parse α) t) := by
  obtain ⟨hspan, _, _, hlength, hlength'⟩ := hR.read h heq hs
  refine ⟨?_, hR.advance h heq hs hk hopen hclose, hlength, hlength'⟩
  rw [hspan]

theorem together_expect_bind {wanted : Token.Kind} (hwanted : ¬wanted.EndsLine)
    {next next' : Unit → Parse β}
    (hnext : s.kind = wanted → t.kind = wanted →
      Together Same R d' n m (next () s.advance) (next' () t.advance)) :
    Together Same R d' n m ((expect wanted >>= next) s) ((expect wanted >>= next') t) := by
  rw [expect_bind, expect_bind]
  by_cases hs : s.kind = wanted
  · have ht := (hR.kind_eq_iff h hwanted).1 hs
    rw [if_pos hs, if_pos ht]
    exact hnext hs ht
  · have ht := mt (hR.kind_eq_iff h hwanted).2 hs
    rw [if_neg hs, if_neg ht]
    exact ⟨hR.complains h (.expected wanted), d, h⟩

theorem together_eat_bind (wanted : Token.Kind) (hwanted : ¬wanted.EndsLine)
    (hopen : wanted ≠ .leftParen) (hclose : wanted ≠ .rightParen) {next next' : Bool → Parse β}
    (hyes : R d s.advance t.advance → s.advance.rest.length < s.rest.length →
      t.advance.rest.length < t.rest.length →
      Together Same R d' n m (next true s.advance) (next' true t.advance))
    (hno : Together Same R d' n m (next false s) (next' false t)) :
    Together Same R d' n m ((eat wanted >>= next) s) ((eat wanted >>= next') t) := by
  rw [eat_bind, eat_bind]
  by_cases hs : s.kind = wanted
  · have ht := (hR.kind_eq_iff h hwanted).1 hs
    have heq := hs.trans ht.symm
    have hends : ¬s.kind.EndsLine := by rwa [hs]
    obtain ⟨_, _, _, hlength, hlength'⟩ := hR.read h heq hends
    rw [if_pos hs, if_pos ht]
    exact hyes (hR.advance h heq hends hs hopen hclose) hlength hlength'
  · have ht := mt (hR.kind_eq_iff h hwanted).2 hs
    rw [if_neg hs, if_neg ht]
    exact hno

end Steps

/-! ## Chains -/

/-- A level of operators: none of them ends a line or is a parenthesis. -/
structure Signs (op? : Token.Kind → Option ω) : Prop where
  endsLine : ∀ {k}, k.EndsLine → op? k = none
  leftParen : op? .leftParen = none
  rightParen : op? .rightParen = none

theorem signs_unitOp : Signs unitOp? where
  endsLine := by rintro k (rfl | rfl) <;> rfl
  leftParen := rfl
  rightParen := rfl

theorem signs_comparisonOp : Signs comparisonOp? where
  endsLine := by rintro k (rfl | rfl) <;> rfl
  leftParen := rfl
  rightParen := rfl

theorem signs_sumOp : Signs sumOp? where
  endsLine := by rintro k (rfl | rfl) <;> rfl
  leftParen := rfl
  rightParen := rfl

theorem signs_productOp : Signs productOp? where
  endsLine := by rintro k (rfl | rfl) <;> rfl
  leftParen := rfl
  rightParen := rfl

theorem chain_of_none {op? : Token.Kind → Option ω} {operand : Parse α} {join : ω → α → α → α}
    (h : op? s.kind = none) (fuel : Nat) (left : α) :
    chain op? operand join fuel left s = .ok left s := by
  cases fuel with
  | zero => rfl
  | succ fuel =>
    rw [chain, peek_bind, h]
    rfl

section Chains

variable {op? : Token.Kind → Option ω} {operand operand' : Parse α} {join : ω → α → α → α}

theorem together_chain_stop {fuel fuel' : Nat} (left : α) (h : R d s t) (hs : op? s.kind = none)
    (ht : op? t.kind = none) (hn : s.rest.length < n) (hm : t.rest.length < m) :
    Together Same R d n m (chain op? operand join fuel left s)
      (chain op? operand' join fuel' left t) := by
  rw [chain_of_none hs, chain_of_none ht]
  exact ⟨rfl, h, hn, hm⟩

variable (hR : Parallel Same R) (hop : Signs op?) {f g : Nat}

include hR hop

theorem together_chain (hoperand : InParallel Same R d f g operand operand') (fuel fuel' : Nat)
    (left : α) (h : R d s t) (hs : s.rest.length ≤ fuel) (ht : t.rest.length ≤ fuel')
    (hf : s.rest.length ≤ f) (hg : t.rest.length ≤ g) (hn : s.rest.length < n)
    (hm : t.rest.length < m) :
    Together Same R d n m (chain op? operand join fuel left s)
      (chain op? operand' join fuel' left t) := by
  induction fuel generalizing fuel' left s t with
  | zero =>
    have hends := TokenStream.endsLine_of_length_le hs
    exact together_chain_stop left h (hop.endsLine hends)
      (hop.endsLine ((hR.endsLine_iff h).1 hends)) hn hm
  | succ fuel ih =>
    by_cases hends : s.kind.EndsLine
    · exact together_chain_stop left h (hop.endsLine hends)
        (hop.endsLine ((hR.endsLine_iff h).1 hends)) hn hm
    · have heq := hR.kind_eq h hends
      cases hsign : op? s.kind with
      | none => exact together_chain_stop left h hsign (heq ▸ hsign) hn hm
      | some op =>
        have hopen : s.kind ≠ .leftParen := by
          intro hk
          rw [hk, hop.leftParen] at hsign
          cases hsign
        have hclose : s.kind ≠ .rightParen := by
          intro hk
          rw [hk, hop.rightParen] at hsign
          cases hsign
        obtain ⟨_, _, _, hlength, hlength'⟩ := hR.read h heq hends
        obtain ⟨fuel', rfl⟩ : ∃ k, fuel' = k + 1 :=
          Nat.exists_eq_add_one_of_ne_zero (by omega)
        rw [chain, chain, peek_bind, peek_bind, ← heq, hsign]
        refine (hoperand s.advance t.advance (hR.advance h heq hends rfl hopen hclose)
          (by omega) (by omega)).bind fun right s' t' h' hs' ht' => ?_
        exact ih fuel' (join op left right) h' (by omega) (by omega) (by omega) (by omega)
          (by omega) (by omega)

theorem parallel_leftAssoc (hoperand : InParallel Same R d f g operand operand')
    {fuel fuel' : Nat} (hf : f ≤ fuel + 1) (hg : g ≤ fuel' + 1) :
    InParallel Same R d f g (leftAssoc fuel op? operand join)
      (leftAssoc fuel' op? operand' join) := by
  intro s t h hs ht
  refine (hoperand s t h hs ht).bind fun left s' t' h' hs' ht' => ?_
  exact together_chain hR hop hoperand fuel fuel' left h' (by omega) (by omega) (by omega)
    (by omega) hs' ht'

end Chains

/-! ## Units -/

section Units

variable (hR : Parallel Same R) {inner inner' : Parse UnitExpr} {f g : Nat}

theorem unitAtom_of_endsLine (h : s.kind.EndsLine) :
    unitAtom inner s = .error ⟨.expectedUnit s.kind, s.span⟩ s := by
  rw [unitAtom, peek_bind]
  rcases h with h | h <;> rw [h] <;> rfl

include hR

theorem parallel_unitAtom (hinner : InParallel Same R (d + 1) f g inner inner') :
    InParallel Same R d (f + 1) (g + 1) (unitAtom inner) (unitAtom inner') := by
  intro s t h hs ht
  by_cases hends : s.kind.EndsLine
  · rw [unitAtom_of_endsLine hends, unitAtom_of_endsLine ((hR.endsLine_iff h).1 hends)]
    exact ⟨hR.complains h .expectedUnit, d, h⟩
  have heq := hR.kind_eq h hends
  have hlonger := hR.read h heq hends
  rw [unitAtom, unitAtom, peek_bind, peek_bind, ← heq]
  cases hk : s.kind with
  | identifier name => exact together_advance hR h heq hends hk nofun nofun (UnitExpr.symbol name)
  | integer n => exact together_advance hR h heq hends hk nofun nofun (UnitExpr.number (.integer n))
  | real x => exact together_advance hR h heq hends hk nofun nofun (UnitExpr.number (.real x))
  | leftParen =>
    obtain ⟨hspan, _, _, hlength, hlength'⟩ := hlonger
    simp only [advance_bind]
    refine (hinner s.advance t.advance (hR.opens h hk (heq ▸ hk)) (by omega) (by omega)).bind
      fun unit s' t' h' hs' ht' => ?_
    refine together_expect_bind hR h' (by decide) fun hclose hclose' => ?_
    obtain ⟨_, hprevious, hprevious', hshorter, hshorter'⟩ :=
      hR.read h' (hclose.trans hclose'.symm) (by rw [hclose]; decide)
    rw [previous_bind, previous_bind, hspan, hprevious, hprevious']
    exact ⟨rfl, hR.closes h' hclose hclose', by omega, by omega⟩
  | _ => exact together_fail hR h _

theorem parallel_unitExponent (hinner : InParallel Same R (d + 1) f g inner inner') :
    InParallel Same R d (f + 1) (g + 1) (unitExponent inner) (unitExponent inner') := by
  intro s t h hs ht
  have hatom := parallel_unitAtom hR hinner s t h hs ht
  rw [unitExponent, unitExponent, peek_bind, peek_bind]
  by_cases hends : s.kind.EndsLine
  · have hends' := (hR.endsLine_iff h).1 hends
    rcases hends with hk | hk <;> rcases hends' with hk' | hk' <;> rw [hk, hk'] <;> exact hatom
  have heq := hR.kind_eq h hends
  obtain ⟨hspan, _, _, hlength, hlength'⟩ := hR.read h heq hends
  rw [← heq]
  cases hk : s.kind with
  | minus =>
    have h' : R d s.advance t.advance := hR.advance h heq hends hk nofun nofun
    simp only [advance_bind, peek_bind, hspan]
    have hfail : Together Same R d s.rest.length t.rest.length
        ((fail (.expectedExponent s.advance.kind) : Parse UnitExpr) s.advance)
        (fail (.expectedExponent t.advance.kind) t.advance) :=
      ⟨hR.complains h' .expectedExponent, d, h'⟩
    by_cases hends' : s.advance.kind.EndsLine
    · have hends'' := (hR.endsLine_iff h').1 hends'
      rcases hends' with hk | hk <;> rcases hends'' with hk' | hk' <;> rw [hk, hk'] at hfail ⊢ <;>
        exact hfail
    have heq' := hR.kind_eq h' hends'
    have hnumber (value : UnitNumber) {k : Token.Kind} (hk : s.advance.kind = k)
        (hopen : k ≠ .leftParen) (hclose : k ≠ .rightParen) :
        Together Same R d s.rest.length t.rest.length
          ((do return .number value (s.span.join (← advance)) : Parse UnitExpr) s.advance)
          ((do return .number value (s.span.join (← advance)) : Parse UnitExpr) t.advance) :=
      (together_advance hR h' heq' hends' hk hopen hclose
        fun span => UnitExpr.number value (s.span.join span)).mono (by omega) (by omega)
    rw [← heq'] at hfail ⊢
    cases hk' : s.advance.kind with
    | integer n => exact hnumber (.integer (-n)) hk' nofun nofun
    | real x => exact hnumber (.real (-x)) hk' nofun nofun
    | _ =>
      rw [hk'] at hfail
      exact hfail
  | _ => exact hatom

theorem parallel_unitFactorWith (hinner : InParallel Same R (d + 1) f g inner inner') :
    InParallel Same R d (f + 1) (g + 1) (unitFactorWith inner) (unitFactorWith inner') := by
  intro s t h hs ht
  refine (parallel_unitAtom hR hinner s t h hs ht).bind fun base s' t' h' hs' ht' => ?_
  refine together_eat_bind hR h' .caret (by decide) nofun nofun
    (fun hcaret hlength hlength' => ?_) ⟨rfl, h', hs', ht'⟩
  refine (parallel_unitExponent hR hinner s'.advance t'.advance hcaret (by omega) (by omega)).bind
    fun exponent s'' t'' h'' hs'' ht'' => ?_
  exact ⟨rfl, h'', by omega, by omega⟩

omit hR in
theorem unitExprFrom_of_endsLine {last : Parse UnitExpr} (hlast : Fails .expectedUnit last)
    (h : s.kind.EndsLine) {fuel : Nat} (hs : s.rest.length ≤ fuel) :
    unitExprFrom last fuel s = .error ⟨.expectedUnit s.kind, s.span⟩ s := by
  cases fuel with
  | zero => exact hlast s hs
  | succ fuel =>
    show EStateM.bind (EStateM.bind (unitAtom (unitExprFrom last fuel)) _) _ s = _
    simp only [EStateM.bind, unitAtom_of_endsLine h]

theorem parallel_unitExprFrom {last last' : Parse UnitExpr} (hlast : Fails .expectedUnit last)
    (hlast' : Fails .expectedUnit last') (f g : Nat) :
    InParallel Same R d f g (unitExprFrom last f) (unitExprFrom last' g) := by
  have hstop {d f g : Nat} {s t : TokenStream} (h : R d s t) (hends : s.kind.EndsLine)
      (hs : s.rest.length ≤ f) (ht : t.rest.length ≤ g) :
      Together Same R d s.rest.length t.rest.length (unitExprFrom last f s)
        (unitExprFrom last' g t) := by
    rw [unitExprFrom_of_endsLine hlast hends hs,
      unitExprFrom_of_endsLine hlast' ((hR.endsLine_iff h).1 hends) ht]
    exact ⟨hR.complains h .expectedUnit, d, h⟩
  induction f generalizing g d with
  | zero => exact fun s t h hs ht => hstop h (TokenStream.endsLine_of_length_le hs) hs ht
  | succ f ih =>
    intro s t h hs ht
    by_cases hends : s.kind.EndsLine
    · exact hstop h hends hs ht
    · have hpos := TokenStream.length_pos_of_not_endsLine (mt (hR.endsLine_iff h).2 hends)
      obtain ⟨g, rfl⟩ : ∃ k, g = k + 1 := Nat.exists_eq_add_one_of_ne_zero (by omega)
      exact parallel_leftAssoc hR signs_unitOp (parallel_unitFactorWith hR (ih g))
        (Nat.le_refl _) (Nat.le_refl _) s t h hs ht

theorem parallel_unitExpr (f g : Nat) : InParallel Same R d f g (unitExpr f) (unitExpr g) := by
  rw [unitExpr_eq, unitExpr_eq]
  exact parallel_unitExprFrom hR (fails_fail _) (fails_fail _) f g

theorem parallel_unitFactor (f g : Nat) :
    InParallel Same R d (f + 1) (g + 1) (unitFactor f) (unitFactor g) :=
  parallel_unitFactorWith hR (parallel_unitExpr hR f g)

end Units

/-! ## Values -/

section Values

variable (hR : Parallel Same R) {nested nested' exponent exponent' : Parse Expr} {f g : Nat}

include hR

theorem together_unitSuffix (number : Expr) (h : R d s t) (hs : s.rest.length ≤ f + 1)
    (ht : t.rest.length ≤ g + 1) (hn : s.rest.length < n) (hm : t.rest.length < m) :
    Together Same R d n m (unitSuffix f number s) (unitSuffix g number t) := by
  have hunit : Together Same R d n m
      ((do
        let unit ← unitFactor f
        return Expr.cast number unit (number.span.join unit.span)) s)
      ((do
        let unit ← unitFactor g
        return Expr.cast number unit (number.span.join unit.span)) t) := by
    refine (parallel_unitFactor hR f g s t h hs ht).bind fun unit s' t' h' hs' ht' => ?_
    exact ⟨rfl, h', by omega, by omega⟩
  rw [unitSuffix, unitSuffix, peek_bind, peek_bind]
  rcases hR.kinds h with heq | ⟨hends, hends'⟩
  · rw [← heq]
    cases s.kind with
    | identifier name => exact hunit
    | leftParen => exact hunit
    | _ => exact ⟨rfl, h, hn, hm⟩
  · rcases hends with hk | hk <;> rcases hends' with hk' | hk' <;> rw [hk, hk'] <;>
      exact ⟨rfl, h, hn, hm⟩

omit hR in
theorem casts_of_ne (h : s.kind ≠ .leftBracket) (fuel : Nat) (value : Expr) :
    casts fuel value s = .ok value s := by
  cases fuel with
  | zero => rfl
  | succ fuel =>
    rw [casts, eat_bind, if_neg h]
    rfl

theorem together_casts (f g : Nat) (value : Expr) (h : R d s t) (hs : s.rest.length ≤ f)
    (ht : t.rest.length ≤ g) (hn : s.rest.length < n) (hm : t.rest.length < m) :
    Together Same R d n m (casts f value s) (casts g value t) := by
  have hopening : ¬Token.Kind.leftBracket.EndsLine := by decide
  have hclosing : ¬Token.Kind.rightBracket.EndsLine := by decide
  induction f generalizing g value s t with
  | zero =>
    have hends := TokenStream.endsLine_of_length_le hs
    have hk : s.kind ≠ .leftBracket := fun hk => hopening (hk ▸ hends)
    rw [casts_of_ne hk, casts_of_ne (mt (hR.kind_eq_iff h hopening).2 hk)]
    exact ⟨rfl, h, hn, hm⟩
  | succ f ih =>
    by_cases hk : s.kind = .leftBracket
    · have hk' := (hR.kind_eq_iff h hopening).1 hk
      have heq := hk.trans hk'.symm
      have hends : ¬s.kind.EndsLine := by rwa [hk]
      obtain ⟨_, _, _, hlength, hlength'⟩ := hR.read h heq hends
      obtain ⟨g, rfl⟩ : ∃ k, g = k + 1 := Nat.exists_eq_add_one_of_ne_zero (by omega)
      rw [casts, casts, eat_bind, eat_bind, if_pos hk, if_pos hk']
      refine (parallel_unitExpr hR f g s.advance t.advance (hR.advance h heq hends hk nofun nofun)
        (by omega) (by omega)).bind fun unit s₁ t₁ h₁ hs₁ ht₁ => ?_
      refine together_expect_bind hR h₁ hclosing fun hclose hclose' => ?_
      have heq₁ := hclose.trans hclose'.symm
      have hends₁ : ¬s₁.kind.EndsLine := by rwa [hclose]
      obtain ⟨_, hprevious, hprevious', hshorter, hshorter'⟩ := hR.read h₁ heq₁ hends₁
      rw [previous_bind, previous_bind, hprevious, hprevious']
      exact ih g _ (hR.advance h₁ heq₁ hends₁ hclose nofun nofun) (by omega) (by omega)
        (by omega) (by omega)
    · rw [casts_of_ne hk, casts_of_ne (mt (hR.kind_eq_iff h hopening).2 hk)]
      exact ⟨rfl, h, hn, hm⟩

omit hR in
theorem primary_of_endsLine (h : s.kind.EndsLine) :
    primary f nested s = .error ⟨.expectedExpression s.kind, s.span⟩ s := by
  rw [primary, peek_bind]
  rcases h with h | h <;> rw [h] <;> rfl

theorem parallel_primary (hnested : InParallel Same R (d + 1) f g nested nested') :
    InParallel Same R d (f + 1) (g + 1) (primary f nested) (primary g nested') := by
  intro s t h hs ht
  by_cases hends : s.kind.EndsLine
  · rw [primary_of_endsLine hends, primary_of_endsLine ((hR.endsLine_iff h).1 hends)]
    exact ⟨hR.complains h .expectedExpression, d, h⟩
  have heq := hR.kind_eq h hends
  obtain ⟨hspan, _, _, hlength, hlength'⟩ := hR.read h heq hends
  have hnumber (value : Literal) {k : Token.Kind} (hk : s.kind = k) (hopen : k ≠ .leftParen)
      (hclose : k ≠ .rightParen) :
      Together Same R d s.rest.length t.rest.length
        ((do unitSuffix f (.literal value (← advance)) : Parse Expr) s)
        ((do unitSuffix g (.literal value (← advance)) : Parse Expr) t) := by
    rw [advance_bind, advance_bind, hspan]
    exact together_unitSuffix hR _ (hR.advance h heq hends hk hopen hclose) (by omega) (by omega)
      hlength hlength'
  rw [primary, primary, peek_bind, peek_bind, ← heq]
  cases hk : s.kind with
  | integer n => exact hnumber (.integer n) hk nofun nofun
  | real x => exact hnumber (.real x) hk nofun nofun
  | string text =>
    exact together_advance hR h heq hends hk nofun nofun (Expr.literal (.string text))
  | character c =>
    exact together_advance hR h heq hends hk nofun nofun (Expr.literal (.character c))
  | keyword word =>
    cases word <;> exact together_advance hR h heq hends hk nofun nofun (Expr.literal _)
  | identifier name => exact together_advance hR h heq hends hk nofun nofun (Expr.identifier name)
  | leftParen =>
    have hopened := hR.newlines (hR.opens h hk (heq ▸ hk))
    have hskip := s.advance.leads_skipNewlines.length_le
    have hskip' := t.advance.leads_skipNewlines.length_le
    simp only [advance_bind, skipNewlines_bind, hspan]
    refine (hnested _ _ hopened (by omega) (by omega)).bind fun inner s₁ t₁ h₁ hs₁ ht₁ => ?_
    have hread := s₁.leads_skipNewlines.length_le
    have hread' := t₁.leads_skipNewlines.length_le
    simp only [skipNewlines_bind]
    refine together_expect_bind hR (hR.newlines h₁) (by decide) fun hclose hclose' => ?_
    obtain ⟨_, hprevious, hprevious', hshorter, hshorter'⟩ := hR.read (hR.newlines h₁)
      (hclose.trans hclose'.symm) (by rw [hclose]; decide)
    rw [previous_bind, previous_bind, hprevious, hprevious']
    exact ⟨rfl, hR.closes (hR.newlines h₁) hclose hclose', by omega, by omega⟩
  | _ => exact together_fail hR h _

theorem parallel_power (hnested : InParallel Same R (d + 1) f g nested nested')
    (hexponent : InParallel Same R d f g exponent exponent') :
    InParallel Same R d (f + 1) (g + 1) (power f nested exponent) (power g nested' exponent') := by
  intro s t h hs ht
  have hoperand : Together Same R d s.rest.length t.rest.length (operand f nested s)
      (operand g nested' t) := by
    refine (parallel_primary hR hnested s t h hs ht).bind fun value s₁ t₁ h₁ hs₁ ht₁ => ?_
    exact together_casts hR f g value h₁ (by omega) (by omega) hs₁ ht₁
  refine hoperand.bind fun base s₁ t₁ h₁ hs₁ ht₁ => ?_
  refine together_eat_bind hR h₁ .caret (by decide) nofun nofun
    (fun hcaret hlength hlength' => ?_) ⟨rfl, h₁, hs₁, ht₁⟩
  refine (hexponent s₁.advance t₁.advance hcaret (by omega) (by omega)).bind
    fun value s₂ t₂ h₂ hs₂ ht₂ => ?_
  exact ⟨rfl, h₂, by omega, by omega⟩

theorem parallel_nestedWith {unary unary' : (levels : Nat) → Parse Expr}
    (hunary : ∀ levels, InParallel Same R d f g (unary levels) (unary' levels)) (levels : Nat) :
    InParallel Same R d f g (nestedWith f unary levels) (nestedWith g unary' levels) := by
  cases levels with
  | zero => exact fun s t h _ _ => together_fail hR h _
  | succ levels =>
    refine parallel_leftAssoc hR signs_comparisonOp ?_ (Nat.le_succ f) (Nat.le_succ g)
    refine parallel_leftAssoc hR signs_sumOp ?_ (Nat.le_succ f) (Nat.le_succ g)
    exact parallel_leftAssoc hR signs_productOp (hunary levels) (Nat.le_succ f) (Nat.le_succ g)

theorem parallel_unaryStep {factor factor' : (levels : Nat) → Parse Expr}
    (hfactor : ∀ d levels, InParallel Same R d f g (factor levels) (factor' levels))
    (levels : Nat) :
    InParallel Same R d (f + 1) (g + 1) (unaryStep f factor levels)
      (unaryStep g factor' levels) := by
  intro s t h hs ht
  have hpower := parallel_power hR (parallel_nestedWith hR (hfactor (d + 1)) levels)
    (hfactor d levels) s t h hs ht
  rw [unaryStep, unaryStep, peek_bind, peek_bind]
  by_cases hends : s.kind.EndsLine
  · have hends' := (hR.endsLine_iff h).1 hends
    rcases hends with hk | hk <;> rcases hends' with hk' | hk' <;> rw [hk, hk'] <;> exact hpower
  have heq := hR.kind_eq h hends
  obtain ⟨hspan, _, _, hlength, hlength'⟩ := hR.read h heq hends
  rw [← heq]
  cases hk : s.kind with
  | minus =>
    simp only [advance_bind, hspan]
    refine (hfactor d levels s.advance t.advance (hR.advance h heq hends hk nofun nofun)
      (by omega) (by omega)).bind fun value s₁ t₁ h₁ hs₁ ht₁ => ?_
    exact ⟨rfl, h₁, by omega, by omega⟩
  | _ => exact hpower

omit hR in
theorem unaryFrom_of_endsLine {last : (levels : Nat) → Parse Expr}
    (hlast : ∀ levels, Fails .expectedExpression (last levels)) (h : s.kind.EndsLine) {fuel : Nat}
    (hs : s.rest.length ≤ fuel) (levels : Nat) :
    unaryFrom last fuel levels s = .error ⟨.expectedExpression s.kind, s.span⟩ s := by
  cases fuel with
  | zero => exact hlast levels s hs
  | succ fuel =>
    have hpower (nested exponent : Parse Expr) :
        power fuel nested exponent s = .error ⟨.expectedExpression s.kind, s.span⟩ s := by
      show EStateM.bind (EStateM.bind (primary fuel nested) _) _ s = _
      simp only [EStateM.bind, primary_of_endsLine h]
    rw [unaryFrom, unaryStep, peek_bind]
    rcases h with hk | hk <;> rw [hk] at hpower ⊢ <;> exact hpower _ _

theorem parallel_unaryFrom {last last' : (levels : Nat) → Parse Expr}
    (hlast : ∀ levels, Fails .expectedExpression (last levels))
    (hlast' : ∀ levels, Fails .expectedExpression (last' levels)) (f g levels : Nat) :
    InParallel Same R d f g (unaryFrom last f levels) (unaryFrom last' g levels) := by
  have hstop {d f g levels : Nat} {s t : TokenStream} (h : R d s t) (hends : s.kind.EndsLine)
      (hs : s.rest.length ≤ f) (ht : t.rest.length ≤ g) :
      Together Same R d s.rest.length t.rest.length (unaryFrom last f levels s)
        (unaryFrom last' g levels t) := by
    rw [unaryFrom_of_endsLine hlast hends hs,
      unaryFrom_of_endsLine hlast' ((hR.endsLine_iff h).1 hends) ht]
    exact ⟨hR.complains h .expectedExpression, d, h⟩
  induction f generalizing g levels d with
  | zero => exact fun s t h hs ht => hstop h (TokenStream.endsLine_of_length_le hs) hs ht
  | succ f ih =>
    intro s t h hs ht
    by_cases hends : s.kind.EndsLine
    · exact hstop h hends hs ht
    · have hpos := TokenStream.length_pos_of_not_endsLine (mt (hR.endsLine_iff h).2 hends)
      obtain ⟨g, rfl⟩ : ∃ k, g = k + 1 := Nat.exists_eq_add_one_of_ne_zero (by omega)
      exact parallel_unaryStep hR (fun d levels => ih g levels) levels s t h hs ht

theorem parallel_expressionFrom {last last' : (levels : Nat) → Parse Expr}
    (hlast : ∀ levels, Fails .expectedExpression (last levels))
    (hlast' : ∀ levels, Fails .expectedExpression (last' levels)) (f g levels : Nat) :
    InParallel Same R d f g (expressionFrom last f levels) (expressionFrom last' g levels) :=
  parallel_nestedWith hR (parallel_unaryFrom hR hlast hlast' f g) levels

theorem parallel_expression (f g levels : Nat) :
    InParallel Same R d f g (expression f levels) (expression g levels) := by
  rw [expression_eq, expression_eq]
  exact parallel_expressionFrom hR (fun _ => fails_fail _) (fun _ => fails_fail _) f g levels

theorem parallel_simpleStatement (f g levels : Nat) :
    InParallel Same R d f g (simpleStatement f levels) (simpleStatement g levels) := by
  intro s t h hs ht
  have hassign : ¬Token.Kind.assign.EndsLine := by decide
  have hname (name : String) : ¬(Token.Kind.identifier name).EndsLine := by
    rintro (hk | hk) <;> cases hk
  unfold simpleStatement
  -- the second token decides on both sides alike whether this is an assignment
  have hsecond {name : String} (hk : s.kind = .identifier name) (hk' : t.kind = .identifier name) :
      R d s.advance t.advance ∧ (s.secondKind = .assign ↔ t.secondKind = .assign) := by
    have h' : R d s.advance t.advance :=
      hR.advance h (hk.trans hk'.symm) (hk ▸ hname name) hk nofun nofun
    rw [← TokenStream.kind_advance, ← TokenStream.kind_advance]
    exact ⟨h', hR.kind_eq_iff h' hassign⟩
  split
  · next name hk hk₂ =>
    have hk' := (hR.kind_eq_iff h (hname name)).1 hk
    obtain ⟨h', hiff⟩ := hsecond hk hk'
    have hk₂' := hiff.1 hk₂
    obtain ⟨hspan, _, _, hlength, hlength'⟩ := hR.read h (hk.trans hk'.symm) (hk ▸ hname name)
    rw [← TokenStream.kind_advance] at hk₂
    have heq₂ : s.advance.kind = t.advance.kind := by
      rw [hk₂, TokenStream.kind_advance, hk₂']
    obtain ⟨_, _, _, hlength₂, hlength₂'⟩ := hR.read h' heq₂ (hk₂ ▸ hassign)
    simp only [hk', hk₂', advance_bind, hspan]
    refine (parallel_expression hR f g levels s.advance.advance t.advance.advance
      (hR.advance h' heq₂ (hk₂ ▸ hassign) hk₂ nofun nofun) (by omega) (by omega)).bind
      fun value s' t' h'' hs' ht' => ?_
    exact ⟨rfl, h'', by omega, by omega⟩
  · next hnot =>
    have hdisplay : Together Same R d s.rest.length t.rest.length
        ((do
          let value ← expression f levels
          if (← peek) = Token.Kind.assign then fail .notAssignable
          else return Stmt.display value) s)
        ((do
          let value ← expression g levels
          if (← peek) = Token.Kind.assign then fail .notAssignable
          else return Stmt.display value) t) := by
      refine (parallel_expression hR f g levels s t h hs ht).bind fun value s' t' h' hs' ht' => ?_
      rw [peek_bind, peek_bind]
      by_cases hk : s'.kind = .assign
      · rw [if_pos hk, if_pos ((hR.kind_eq_iff h' hassign).1 hk)]
        exact together_fail hR h' _
      · rw [if_neg hk, if_neg (mt (hR.kind_eq_iff h' hassign).2 hk)]
        exact ⟨rfl, h', hs', ht'⟩
    split
    · next name hk' hk₂' =>
      have hk := (hR.kind_eq_iff h (hname name)).2 hk'
      exact (hnot name hk ((hsecond hk hk').2.2 hk₂')).elim
    · exact hdisplay

end Values

/-! ## Independence of the fuel -/

/-- A stream and itself. -/
theorem parallel_eq : Parallel (· = ·) fun _ s t => s = t where
  kinds h := .inl (congrArg _ h)
  spans h _ _ := congrArg _ h
  complains h problem := by rw [h]
  advance h _ _ _ _ _ := congrArg _ h
  opens h _ _ := congrArg _ h
  closes h _ _ := congrArg _ h
  newlines h := congrArg _ h

/-- Parsers that read a stream alike give the same result, and read something if
they do not fail. -/
theorem InParallel.same {p q : Parse α} {f g : Nat}
    (h : InParallel (· = ·) (fun _ s t => s = t) 0 f g p q) (hf : s.rest.length ≤ f)
    (hg : s.rest.length ≤ g) :
    p s = q s ∧ ∀ value s', p s = .ok value s' → s'.rest.length < s.rest.length := by
  rcases (h s s rfl hf hg).cases with ⟨value, s', t', hp, hq, rfl, hlength, _⟩ |
    ⟨_, _, s', t', hp, hq, rfl, _, rfl⟩
  · refine ⟨hp.trans hq.symm, fun value' s'' hother => ?_⟩
    cases hp.symm.trans hother
    exact hlength
  · refine ⟨hp.trans hq.symm, fun value' s'' hother => ?_⟩
    cases hp.symm.trans hother

variable {f g : Nat} (levels : Nat) (hf : s.rest.length ≤ f) (hg : s.rest.length ≤ g)

include hf hg

theorem unitExprFrom_fuel {last : Parse UnitExpr} (hlast : Fails .expectedUnit last) :
    unitExprFrom last f s = unitExpr g s := by
  rw [unitExpr_eq]
  exact (InParallel.same (parallel_unitExprFrom parallel_eq hlast (fails_fail _) f g) hf hg).1

theorem expressionFrom_fuel {last : (levels : Nat) → Parse Expr}
    (hlast : ∀ levels, Fails .expectedExpression (last levels)) :
    expressionFrom last f levels s = expression g levels s := by
  rw [expression_eq]
  exact (InParallel.same (parallel_expressionFrom parallel_eq hlast (fun _ => fails_fail _) f g
    levels) hf hg).1

theorem simpleStatement_fuel : simpleStatement f levels s = simpleStatement g levels s :=
  (InParallel.same (parallel_simpleStatement parallel_eq f g levels) hf hg).1

omit hg in
/-- A simple statement is never empty. -/
theorem length_lt_of_simpleStatement {statement : Stmt} {s' : TokenStream}
    (h : simpleStatement f levels s = .ok statement s') : s'.rest.length < s.rest.length :=
  (InParallel.same (parallel_simpleStatement parallel_eq f f levels) hf hf).2 statement s' h

end Parse

end UnitScript
