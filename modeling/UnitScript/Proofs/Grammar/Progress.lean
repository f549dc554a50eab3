import UnitScript.Program.Parser
import UnitScript.Proofs.Grammar.Reading

/-!
# Reading moves forward

Whatever the parser does, it passes over tokens from left to right: what is left
of the stream is an end of it, the token read last is the one in front of that,
and the end of the file stays where it is.  Reading that is no block does not pass
over a closing brace either.  This holds for every budget of fuel and levels, and
for readings that fail.

* `TokenStream.Passes` says which tokens were passed over, `Leads` that some were and
  `Stays` that no closing brace was among them.
* `Parse.StaysInside` says the last of a reading, and what it complains about: a unit
  only asks for another token, and the rest also finds expressions that nest too deep.
  `StaysInside.bind` follows it through a sequence, up to `inside_simpleStatement`.  In
  particular reading moves forward, `Parse.Forward`.
* `leads_statements` is the result for statements, with all that is skipped.
-/

namespace UnitScript

/-! ## Streams -/

namespace TokenStream

/-- From `s` the tokens `read` were passed over, and `s'` is left. -/
structure Passes (read : List Token) (s s' : TokenStream) : Prop where
  rest : s.rest = read ++ s'.rest
  previous : s'.previous = (read.getLast?.map (·.span)).getD s.previous
  finish : s'.finish = s.finish

variable {s s' s'' : TokenStream} {read more : List Token}

namespace Passes

theorem refl (s : TokenStream) : Passes [] s s := ⟨rfl, rfl, rfl⟩

theorem trans (h : Passes read s s') (h' : Passes more s' s'') : Passes (read ++ more) s s'' where
  rest := by rw [h.rest, h'.rest, List.append_assoc]
  previous := by
    rw [h'.previous, h.previous, List.getLast?_append]
    cases more.getLast? <;> rfl
  finish := h'.finish.trans h.finish

theorem length (h : Passes read s s') : s.rest.length = read.length + s'.rest.length := by
  rw [h.rest, List.length_append]

end Passes

/-- The token that is read is passed over. -/
theorem passes_advance {token : Token} {rest : List Token} (h : s.rest = token :: rest) :
    Passes [token] s s.advance := by
  unfold advance
  rw [h]
  exact ⟨h, rfl, rfl⟩

theorem passes_skipWhile (p : Token.Kind → Bool) (s : TokenStream) :
    Passes (s.rest.takeWhile fun token => p token.kind) s (s.skipWhile p) where
  rest := List.takeWhile_append_dropWhile.symm
  previous := by
    simp only [skipWhile]
    cases (s.rest.takeWhile fun token => p token.kind).getLast? <;> rfl
  finish := rfl

/-- Some tokens were passed over, maybe none. -/
def Leads (s s' : TokenStream) : Prop := ∃ read, Passes read s s'

namespace Leads

theorem refl (s : TokenStream) : s.Leads s := ⟨[], .refl s⟩

theorem trans (h : s.Leads s') (h' : s'.Leads s'') : s.Leads s'' := by
  obtain ⟨read, hread⟩ := h
  obtain ⟨more, hmore⟩ := h'
  exact ⟨read ++ more, hread.trans hmore⟩

theorem length_le (h : s.Leads s') : s'.rest.length ≤ s.rest.length := by
  obtain ⟨read, hread⟩ := h
  rw [hread.length]
  exact Nat.le_add_left _ _

end Leads

theorem leads_advance (s : TokenStream) : s.Leads s.advance := by
  cases h : s.rest with
  | nil =>
    have hsame : s.advance = s := by
      unfold advance
      rw [h]
    rw [hsame]
    exact .refl s
  | cons token rest => exact ⟨[token], passes_advance h⟩

theorem leads_skipWhile (p : Token.Kind → Bool) (s : TokenStream) : s.Leads (s.skipWhile p) :=
  ⟨_, passes_skipWhile p s⟩

theorem leads_skipNewlines (s : TokenStream) : s.Leads s.skipNewlines := leads_skipWhile _ s

theorem leads_synchronize (s : TokenStream) : s.Leads s.synchronize :=
  (leads_skipWhile isInsideStatement s).trans (leads_skipNewlines _)

/-- Some tokens were passed over, maybe none, and no closing brace. -/
def Stays (s s' : TokenStream) : Prop :=
  ∃ read, Passes read s s' ∧ ∀ token ∈ read, token.kind ≠ .rightBrace

namespace Stays

theorem refl (s : TokenStream) : s.Stays s := ⟨[], .refl s, by simp⟩

theorem trans (h : s.Stays s') (h' : s'.Stays s'') : s.Stays s'' := by
  obtain ⟨read, hread, hne⟩ := h
  obtain ⟨more, hmore, hne'⟩ := h'
  exact ⟨read ++ more, hread.trans hmore, List.forall_mem_append.2 ⟨hne, hne'⟩⟩

theorem leads (h : s.Stays s') : s.Leads s' := by
  obtain ⟨read, hread, _⟩ := h
  exact ⟨read, hread⟩

end Stays

theorem stays_advance (h : s.kind ≠ .rightBrace) : s.Stays s.advance := by
  cases hrest : s.rest with
  | nil =>
    have hsame : s.advance = s := by
      unfold advance
      rw [hrest]
    rw [hsame]
    exact .refl s
  | cons token rest =>
    refine ⟨[token], passes_advance hrest, List.forall_mem_singleton.2 ?_⟩
    rwa [kind, hrest] at h

theorem stays_skipWhile {p : Token.Kind → Bool} (hp : p .rightBrace = false) (s : TokenStream) :
    s.Stays (s.skipWhile p) := by
  refine ⟨_, passes_skipWhile p s, fun token htoken hk => ?_⟩
  have hall := List.all_takeWhile (p := fun token : Token => p token.kind) (l := s.rest)
  have hpassed := List.all_eq_true.1 hall token htoken
  rw [hk, hp] at hpassed
  cases hpassed

theorem stays_skipNewlines (s : TokenStream) : s.Stays s.skipNewlines := stays_skipWhile rfl s

theorem stays_synchronize (s : TokenStream) : s.Stays s.synchronize :=
  (stays_skipWhile (p := isInsideStatement) rfl s).trans (stays_skipNewlines _)

/-- A token that is not the end of the file is there to be read. -/
theorem exists_cons_of_kind {k : Token.Kind} (h : s.kind = k) (hk : k ≠ .endOfFile) :
    ∃ token rest, s.rest = token :: rest ∧ token.kind = k := by
  unfold kind at h
  cases hrest : s.rest with
  | nil =>
    rw [hrest] at h
    exact absurd h.symm hk
  | cons token rest =>
    rw [hrest] at h
    exact ⟨token, rest, rfl, h⟩

/-- Only at the end of the file nothing is read. -/
theorem length_advance_lt (h : s.kind ≠ .endOfFile) : s.advance.rest.length < s.rest.length := by
  obtain ⟨token, rest, hrest, _⟩ := exists_cons_of_kind rfl h
  rw [(passes_advance hrest).length]
  exact Nat.lt_add_of_pos_left Nat.one_pos

theorem previous_advance (h : s.kind ≠ .endOfFile) : s.advance.previous = s.span := by
  obtain ⟨token, rest, hrest, _⟩ := exists_cons_of_kind rfl h
  rw [(passes_advance hrest).previous, TokenStream.span, hrest]
  rfl

end TokenStream

/-! ## Single steps of reading -/

/-- Something else should stand where a token was found. -/
def Problem.AsksForToken : Problem → Prop
  | .expected _ _ => True
  | .expectedExpression _ => True
  | .expectedUnit _ => True
  | .expectedExponent _ => True
  | _ => False

/-- The problem is reported as a token that was not expected. -/
def Problem.HasTokenCode (problem : Problem) : Prop := problem.code = .unexpectedToken

theorem Problem.AsksForToken.hasTokenCode {problem : Problem} (h : problem.AsksForToken) :
    problem.HasTokenCode := by
  cases problem with
  | expected wanted found => rfl
  | expectedExpression found => rfl
  | expectedUnit found => rfl
  | expectedExponent found => rfl
  | _ => exact h.elim

namespace Parse

variable {α β ω : Type} {s : TokenStream} {bad : Problem → Prop}

/-- The stream that reading leaves, whether it failed or not. -/
def after : EStateM.Result Complaint TokenStream α → TokenStream
  | .ok _ s => s
  | .error _ s => s

/-- Reading only passes over tokens. -/
def Forward (p : Parse α) : Prop := ∀ s : TokenStream, s.Leads (after (p s))

/-- From `s` on no closing brace was passed over, and a complaint is about a problem of
the given kind. -/
def Inside (bad : Problem → Prop) (s : TokenStream) :
    EStateM.Result Complaint TokenStream α → Prop
  | .ok _ s' => s.Stays s'
  | .error complaint s' => s.Stays s' ∧ bad complaint.problem

/-- Reading never leaves the block it starts in. -/
def StaysInside (bad : Problem → Prop) (p : Parse α) : Prop := ∀ s, Inside bad s (p s)

theorem Inside.stays {result : EStateM.Result Complaint TokenStream α} (h : Inside bad s result) :
    s.Stays (after result) := by
  cases result with
  | ok value s' => exact h
  | error complaint s' => exact h.1

theorem Inside.of_stays {s₀ : TokenStream} {result : EStateM.Result Complaint TokenStream α}
    (hstays : s₀.Stays s) (h : Inside bad s result) : Inside bad s₀ result := by
  cases result with
  | ok value s' => exact hstays.trans h
  | error complaint s' => exact ⟨hstays.trans h.1, h.2⟩

theorem StaysInside.forward {p : Parse α} (h : StaysInside bad p) : Forward p :=
  fun s => (h s).stays.leads

theorem StaysInside.mono {p : Parse α} (h : StaysInside Problem.AsksForToken p) :
    StaysInside Problem.HasTokenCode p := by
  intro s
  have hread := h s
  cases hresult : p s with
  | ok value s' =>
    rw [hresult] at hread
    exact hread
  | error complaint s' =>
    rw [hresult] at hread
    exact ⟨hread.1, hread.2.hasTokenCode⟩

theorem Inside.bind {m : Parse α} {next : α → Parse β} (hm : Inside bad s (m s))
    (hnext : ∀ value, StaysInside bad (next value)) : Inside bad s ((m >>= next) s) := by
  show Inside bad s (EStateM.bind m next s)
  unfold EStateM.bind
  cases hresult : m s with
  | error complaint s' =>
    rw [hresult] at hm
    exact hm
  | ok value s' =>
    rw [hresult] at hm
    exact .of_stays hm (hnext value s')

theorem StaysInside.bind {m : Parse α} {next : α → Parse β} (hm : StaysInside bad m)
    (hnext : ∀ value, StaysInside bad (next value)) : StaysInside bad (m >>= next) :=
  fun s => (hm s).bind hnext

theorem previous_bind (next : Span → Parse β) :
    (previous >>= next) s = next s.previous s := rfl

theorem inside_pure (value : α) : StaysInside bad (pure value : Parse α) := fun s => .refl s

/-- The token that is looked at is not read. -/
theorem inside_peek {next : Token.Kind → Parse β} (h : ∀ s, Inside bad s (next s.kind s)) :
    StaysInside bad (peek >>= next) := h

theorem inside_previous : StaysInside bad previous := fun s => .refl s

theorem inside_skipNewlines : StaysInside bad skipNewlines := fun s => s.stays_skipNewlines

theorem inside_fail {problem : Problem} (h : bad problem) :
    StaysInside bad (fail problem : Parse α) := fun s => ⟨.refl s, h⟩

/-- A token that is not a closing brace is read. -/
theorem inside_advance {k : Token.Kind} (hk : s.kind = k) (hne : k ≠ .rightBrace)
    {next : Span → Parse β} (hnext : ∀ span, StaysInside bad (next span)) :
    Inside bad s ((advance >>= next) s) :=
  .of_stays (TokenStream.stays_advance (hk ▸ hne)) (hnext s.span s.advance)

theorem inside_eat (wanted : Token.Kind) (hne : wanted ≠ .rightBrace) :
    StaysInside bad (eat wanted) := by
  intro s
  unfold eat
  split
  · next hk => exact TokenStream.stays_advance (hk ▸ hne)
  · exact .refl s

theorem inside_expect (wanted : Token.Kind) (hne : wanted ≠ .rightBrace) :
    StaysInside Problem.AsksForToken (expect wanted) := by
  intro s
  unfold expect
  split
  · next hk => exact TokenStream.stays_advance (hk ▸ hne)
  · exact ⟨.refl s, trivial⟩

theorem inside_leftAssoc (op? : Token.Kind → Option ω) (hop : op? .rightBrace = none)
    {operand : Parse α} (hoperand : StaysInside bad operand) (join : ω → α → α → α) (fuel : Nat) :
    StaysInside bad (leftAssoc fuel op? operand join) := by
  have hchain (fuel : Nat) (left : α) : StaysInside bad (chain op? operand join fuel left) := by
    induction fuel generalizing left with
    | zero => exact inside_pure left
    | succ fuel ih =>
      refine inside_peek fun s => ?_
      cases hsign : op? s.kind with
      | none => exact .refl s
      | some op =>
        have hne : s.kind ≠ .rightBrace := by
          intro hk
          rw [hk, hop] at hsign
          cases hsign
        exact inside_advance rfl hne fun _ => hoperand.bind fun right => ih _
  exact hoperand.bind fun left => hchain fuel left

/-! ## Units -/

section Units

variable {inner : Parse UnitExpr} (hinner : StaysInside Problem.AsksForToken inner)

include hinner

theorem inside_unitAtom : StaysInside Problem.AsksForToken (unitAtom inner) := by
  refine inside_peek fun s => ?_
  cases hk : s.kind with
  | identifier name => exact inside_advance hk (by simp) fun _ => inside_pure _
  | integer n => exact inside_advance hk (by simp) fun _ => inside_pure _
  | real x => exact inside_advance hk (by simp) fun _ => inside_pure _
  | leftParen =>
    refine inside_advance hk (by simp) fun _ => hinner.bind fun _ => ?_
    refine (inside_expect .rightParen (by simp)).bind fun _ => ?_
    exact inside_previous.bind fun _ => inside_pure _
  | _ => exact inside_fail trivial s

theorem inside_unitExponent : StaysInside Problem.AsksForToken (unitExponent inner) := by
  refine inside_peek fun s => ?_
  have hatom := inside_unitAtom hinner s
  cases hk : s.kind with
  | minus =>
    refine inside_advance hk (by simp) fun minus => inside_peek fun s => ?_
    cases hk : s.kind with
    | integer n => exact inside_advance hk (by simp) fun _ => inside_pure _
    | real x => exact inside_advance hk (by simp) fun _ => inside_pure _
    | _ => exact inside_fail trivial s
  | _ => exact hatom

theorem inside_unitFactorWith : StaysInside Problem.AsksForToken (unitFactorWith inner) := by
  refine (inside_unitAtom hinner).bind fun _ => (inside_eat .caret (by simp)).bind fun caret => ?_
  split
  · exact (inside_unitExponent hinner).bind fun _ => inside_pure _
  · exact inside_pure _

end Units

theorem inside_unitExpr (fuel : Nat) : StaysInside Problem.AsksForToken (unitExpr fuel) := by
  induction fuel with
  | zero => exact fun s => inside_fail trivial s
  | succ fuel ih => exact inside_leftAssoc unitOp? rfl (inside_unitFactorWith ih) _ fuel

theorem forward_unitExpr (fuel : Nat) : Forward (unitExpr fuel) := (inside_unitExpr fuel).forward

/-! ## Values -/

theorem inside_unitSuffix (fuel : Nat) (number : Expr) :
    StaysInside Problem.AsksForToken (unitSuffix fuel number) := by
  refine inside_peek fun s => ?_
  have hcast : Inside Problem.AsksForToken s
      ((do
        let unit ← unitFactor fuel
        return Expr.cast number unit (number.span.join unit.span)) s) :=
    (inside_unitFactorWith (inside_unitExpr fuel) s).bind fun _ => inside_pure _
  cases s.kind with
  | identifier name => exact hcast
  | leftParen => exact hcast
  | _ => exact .refl s

theorem inside_casts (fuel : Nat) (value : Expr) :
    StaysInside Problem.AsksForToken (casts fuel value) := by
  induction fuel generalizing value with
  | zero => exact inside_pure _
  | succ fuel ih =>
    refine (inside_eat .leftBracket (by simp)).bind fun opened => ?_
    split
    · refine (inside_unitExpr fuel).bind fun _ => ?_
      refine (inside_expect .rightBracket (by simp)).bind fun _ => ?_
      exact inside_previous.bind fun _ => ih _
    · exact inside_pure _

section Values

variable {nested exponent : Parse Expr} (hnested : StaysInside Problem.HasTokenCode nested)

include hnested

theorem inside_primary (fuel : Nat) : StaysInside Problem.HasTokenCode (primary fuel nested) := by
  refine inside_peek fun s => ?_
  have hnumber (value : Literal) {k : Token.Kind} (hk : s.kind = k) (hne : k ≠ .rightBrace) :
      Inside Problem.HasTokenCode s
        ((do unitSuffix fuel (.literal value (← advance)) : Parse Expr) s) :=
    inside_advance hk hne fun _ => (inside_unitSuffix fuel _).mono
  cases hk : s.kind with
  | integer n => exact hnumber (.integer n) hk (by simp)
  | real x => exact hnumber (.real x) hk (by simp)
  | string text => exact inside_advance hk (by simp) fun _ => inside_pure _
  | character c => exact inside_advance hk (by simp) fun _ => inside_pure _
  | keyword word => cases word <;> exact inside_advance hk (by simp) fun _ => inside_pure _
  | identifier name => exact inside_advance hk (by simp) fun _ => inside_pure _
  | leftParen =>
    refine inside_advance hk (by simp) fun _ => inside_skipNewlines.bind fun _ => ?_
    refine hnested.bind fun _ => inside_skipNewlines.bind fun _ => ?_
    refine (inside_expect .rightParen (by simp)).mono.bind fun _ => ?_
    exact inside_previous.bind fun _ => inside_pure _
  | _ => exact (inside_fail trivial).mono s

theorem inside_power (hexponent : StaysInside Problem.HasTokenCode exponent) (fuel : Nat) :
    StaysInside Problem.HasTokenCode (power fuel nested exponent) := by
  have hoperand : StaysInside Problem.HasTokenCode (operand fuel nested) :=
    (inside_primary hnested fuel).bind fun _ => (inside_casts fuel _).mono
  refine hoperand.bind fun _ => (inside_eat .caret (by simp)).bind fun caret => ?_
  split
  · exact hexponent.bind fun _ => inside_pure _
  · exact inside_pure _

end Values

theorem inside_nestedWith {unary : (levels : Nat) → Parse Expr}
    (hunary : ∀ levels, StaysInside Problem.HasTokenCode (unary levels)) (fuel levels : Nat) :
    StaysInside Problem.HasTokenCode (nestedWith fuel unary levels) := by
  cases levels with
  | zero => exact inside_fail rfl
  | succ levels =>
    have hproduct := inside_leftAssoc productOp? rfl (hunary levels) .join fuel
    have hsum := inside_leftAssoc sumOp? rfl hproduct .join fuel
    exact inside_leftAssoc comparisonOp? rfl hsum .join fuel

theorem inside_unary (fuel levels : Nat) :
    StaysInside Problem.HasTokenCode (unary fuel levels) := by
  induction fuel generalizing levels with
  | zero => exact fun s => (inside_fail trivial).mono s
  | succ fuel ih =>
    refine inside_peek fun s => ?_
    have hpower := inside_power (inside_nestedWith ih fuel levels) (ih levels) fuel s
    cases hk : s.kind with
    | minus => exact inside_advance hk (by simp) fun _ => (ih levels).bind fun _ => inside_pure _
    | _ => exact hpower

theorem inside_expression (fuel levels : Nat) :
    StaysInside Problem.HasTokenCode (expression fuel levels) :=
  inside_nestedWith (inside_unary fuel) fuel levels

theorem forward_expression (fuel levels : Nat) : Forward (expression fuel levels) :=
  (inside_expression fuel levels).forward

theorem inside_simpleStatement (fuel levels : Nat) :
    StaysInside Problem.HasTokenCode (simpleStatement fuel levels) := by
  have hvalue := inside_expression fuel levels
  intro s
  unfold simpleStatement
  split
  · next name hk hassign =>
    rw [← TokenStream.kind_advance] at hassign
    have hname : s.Stays s.advance := TokenStream.stays_advance (by simp [hk])
    rw [advance_bind]
    refine .of_stays hname (inside_advance hassign (by simp) fun _ => ?_)
    exact hvalue.bind fun _ => inside_pure _
  · refine (hvalue s).bind fun _ => inside_peek fun s' => ?_
    split
    · have hcode : Problem.HasTokenCode .notAssignable := rfl
      exact inside_fail hcode s'
    · exact .refl s'

theorem forward_simpleStatement (fuel levels : Nat) : Forward (simpleStatement fuel levels) :=
  (inside_simpleStatement fuel levels).forward

end Parse

/-! ## Statements -/

namespace Reading

variable (source : Source)

theorem leads_endStatement (reading : Reading) :
    reading.stream.Leads (reading.endStatement source).stream := by
  unfold endStatement
  split
  · exact reading.stream.leads_skipNewlines
  · exact .refl _
  · exact .refl _
  · exact reading.stream.leads_synchronize

theorem leads_attempt {α : Type} {parse : Parse α} (h : Parse.Forward parse) (reading : Reading) :
    reading.stream.Leads (reading.attempt source parse).2.stream := by
  have hread := h reading.stream
  unfold attempt
  cases hresult : parse reading.stream <;> rw [hresult] at hread <;> exact hread

section Bodies

variable {body : (levels : Nat) → Reading → List Stmt × Reading}
  (hbody : ∀ levels (reading : Reading), reading.stream.Leads (body levels reading).2.stream)

include hbody

/-- A block passes over its opening brace, also if it is not read. -/
theorem leads_block (levels : Nat) (reading : Reading) :
    reading.stream.advance.Leads (reading.block source body levels).2.stream := by
  cases levels with
  | zero => exact .refl _
  | succ levels =>
    have hread : reading.stream.advance.Leads _ := hbody levels (reading.move .advance)
    simp only [block]
    split
    · exact hread.trans (TokenStream.leads_advance _)
    · exact hread

theorem leads_statement (fuel levels : Nat) (reading : Reading) :
    reading.stream.Leads (reading.statement source fuel body levels).2.stream := by
  unfold statement
  split
  · exact (TokenStream.leads_advance _).trans (leads_block source hbody levels reading)
  · exact leads_attempt source (Parse.forward_simpleStatement fuel levels) reading

end Bodies

/-- Statements are read from left to right, and so is what is skipped between
them. -/
theorem leads_statements (fuel : Nat) (inBlock : Bool) (levels : Nat) (reading : Reading) :
    reading.stream.Leads (statements source fuel inBlock levels reading).2.stream := by
  induction fuel generalizing inBlock levels reading with
  | zero => exact .refl _
  | succ fuel ih =>
    refine reading.stream.leads_skipNewlines.trans ?_
    show (reading.move .skipNewlines).stream.Leads _
    unfold statements
    simp only
    generalize reading.move .skipNewlines = here
    split
    · exact .refl _
    · split
      · refine here.stream.leads_advance.trans ?_
        exact ih inBlock levels
          ((here.complain source .unmatchedBrace here.stream.span).move .advance)
      · refine (leads_statement source (ih true) (fuel + 1) levels here).trans ?_
        rcases here.statement source (fuel + 1) (statements source fuel true) levels with
          ⟨_ | statement, after⟩
        · exact after.stream.leads_synchronize.trans (ih inBlock levels (after.move .synchronize))
        · exact (leads_endStatement source after).trans
            (ih inBlock levels (after.endStatement source))

end Reading

end UnitScript
