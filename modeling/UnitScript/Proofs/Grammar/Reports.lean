import UnitScript.Proofs.Grammar.Counter

/-!
# Failures are reported once

A reading that fails hands its complaint on, and whoever asked for it records it.  The
reader with the counter records what is wrong where it is found, and then fails with
nothing in hand.  Nothing in its type keeps a step from failing without a report, or from
reporting and going on.  Still every call that fails has added one error, and every other
call has added none and has read a token.

* `Count.unitExpr`, `unitSuffix` and `casts` read units with the log in the state, one
  token at a time.  `lift_bind` says that it does not matter when a complaint is recorded,
  so they are the readers of units that `Count.expression` asks for as a whole.
* `Count.answer` is what a call answers and leaves, to be compared with `Reading.attempt`.
* `Reading.ReportsOnce` is what a call may do.  `reportsOnce_attempt` gets it from a
  grammar: what is derived has tokens, and what is complained about is an error.
* `failures_reported_once` is the result.
-/

namespace UnitScript

/-! ## Units with the log in the state -/

namespace Count

section Readers

variable (source : Source)

/-- Reads an atom; `inner` reads what stands in parentheses. -/
def unitAtom (inner : Count UnitExpr) : Count UnitExpr := do
  match ← lift source Parse.peek with
  | .identifier name => return .symbol name (← lift source Parse.advance)
  | .integer n => return .number (.integer n) (← lift source Parse.advance)
  | .real x => return .number (.real x) (← lift source Parse.advance)
  | .leftParen => do
      let opening ← lift source Parse.advance
      let unit ← inner
      lift source (Parse.expect .rightParen)
      return .group unit (opening.join (← lift source Parse.previous))
  | found => lift source (Parse.fail (.expectedUnit found))

/-- Reads what stands behind `^`. -/
def unitExponent (inner : Count UnitExpr) : Count UnitExpr := do
  match ← lift source Parse.peek with
  | .minus => do
      let minus ← lift source Parse.advance
      match ← lift source Parse.peek with
      | .integer n =>
          return .number (.integer (-n)) (minus.join (← lift source Parse.advance))
      | .real x => return .number (.real (-x)) (minus.join (← lift source Parse.advance))
      | found => lift source (Parse.fail (.expectedExponent found))
  | _ => unitAtom source inner

/-- Reads a factor; `inner` reads what stands in parentheses. -/
def unitFactorWith (inner : Count UnitExpr) : Count UnitExpr := do
  let base ← unitAtom source inner
  if ← lift source (Parse.eat .caret) then
    return .join .pow base (← unitExponent source inner)
  else
    return base

/-- Reads a unit expression. -/
def unitExpr : (fuel : Nat) → Count UnitExpr
  | 0 => do lift source (Parse.fail (.expectedUnit (← lift source Parse.peek)))
  | fuel + 1 =>
      leftAssoc source fuel Parse.unitOp? (unitFactorWith source (unitExpr fuel)) .join

/-- Reads the unit of a number, if one follows directly. -/
def unitSuffix (fuel : Nat) (number : Expr) : Count Expr := do
  match ← lift source Parse.peek with
  | .identifier _ | .leftParen => do
      let unit ← unitFactorWith source (unitExpr source fuel)
      return .cast number unit (number.span.join unit.span)
  | _ => return number

/-- Reads the casts behind `value`. -/
def casts : (fuel : Nat) → Expr → Count Expr
  | 0, value => pure value
  | fuel + 1, value => do
      if ← lift source (Parse.eat .leftBracket) then
        let unit ← unitExpr source fuel
        lift source (Parse.expect .rightBracket)
        casts fuel (.cast value unit (value.span.join (← lift source Parse.previous)))
      else
        pure value

end Readers

/-! ### Early and late reports -/

variable {source : Source} {α β ω : Type}

theorem lift_pure (value : α) : lift source (pure value) = pure value := rfl

/-- Recording a complaint where it arises is recording it behind the whole sequence. -/
theorem lift_bind (parse : Parse α) (next : α → Parse β) :
    lift source (parse >>= next) = lift source parse >>= fun value => lift source (next value) := by
  funext c
  show lift source (EStateM.bind parse next) c = EStateM.bind (lift source parse) _ c
  unfold EStateM.bind
  simp only [lift]
  cases hresult : parse c.stream with
  | ok value stream => rfl
  | error complaint stream => rfl

theorem leftAssoc_lift (op? : Token.Kind → Option ω) (operand : Parse α) (join : ω → α → α → α)
    (fuel : Nat) :
    leftAssoc source fuel op? (lift source operand) join =
      lift source (Parse.leftAssoc fuel op? operand join) := by
  have hchain (fuel : Nat) (left : α) :
      chain source op? (lift source operand) join fuel left =
        lift source (Parse.chain op? operand join fuel left) := by
    induction fuel generalizing left with
    | zero => rfl
    | succ fuel ih =>
      rw [chain, Parse.chain, lift_bind]
      congr 1
      funext kind
      cases op? kind with
      | none => rfl
      | some op => simp only [lift_bind, ih]
  simp only [leftAssoc, Parse.leftAssoc, lift_bind, hchain]

theorem unitAtom_lift (inner : Parse UnitExpr) :
    unitAtom source (lift source inner) = lift source (Parse.unitAtom inner) := by
  rw [unitAtom, Parse.unitAtom, lift_bind]
  congr 1
  funext kind
  cases kind <;> simp only [lift_bind, lift_pure]

theorem unitExponent_lift (inner : Parse UnitExpr) :
    unitExponent source (lift source inner) = lift source (Parse.unitExponent inner) := by
  rw [unitExponent, Parse.unitExponent, lift_bind]
  congr 1
  funext kind
  cases kind with
  | minus =>
    simp only [lift_bind]
    congr 1
    funext minus
    congr 1
    funext kind
    cases kind <;> simp only [lift_bind, lift_pure]
  | _ => exact unitAtom_lift inner

theorem unitFactorWith_lift (inner : Parse UnitExpr) :
    unitFactorWith source (lift source inner) = lift source (Parse.unitFactorWith inner) := by
  simp only [unitFactorWith, Parse.unitFactorWith, lift_bind, unitAtom_lift, unitExponent_lift]
  congr 1
  funext base
  congr 1
  funext caret
  cases caret with
  | true => simp only [if_true, lift_bind, lift_pure]
  | false => rfl

theorem unitExpr_eq_lift (fuel : Nat) :
    unitExpr source fuel = lift source (Parse.unitExpr fuel) := by
  induction fuel with
  | zero => rfl
  | succ fuel ih => rw [unitExpr, ih, unitFactorWith_lift, leftAssoc_lift, Parse.unitExpr]

theorem unitSuffix_eq_lift (fuel : Nat) (number : Expr) :
    unitSuffix source fuel number = lift source (Parse.unitSuffix fuel number) := by
  rw [unitSuffix, Parse.unitSuffix, lift_bind, unitExpr_eq_lift, unitFactorWith_lift]
  congr 1
  funext kind
  cases kind <;> simp only [lift_bind, lift_pure, Parse.unitFactor]

theorem casts_eq_lift (fuel : Nat) (value : Expr) :
    casts source fuel value = lift source (Parse.casts fuel value) := by
  induction fuel generalizing value with
  | zero => rfl
  | succ fuel ih =>
    rw [casts, Parse.casts, lift_bind]
    congr 1
    funext opened
    cases opened with
    | true => simp only [if_true, lift_bind, unitExpr_eq_lift, ih]
    | false => rfl

/-! ### Answers -/

/-- What a call answers, and where it leaves the reading. -/
def answer : EStateM.Result Unit Counter α → Option α × Reading
  | .ok value c => (some value, c.toReading)
  | .error _ c => (none, c.toReading)

theorem answer_lift (parse : Parse α) (c : Counter) :
    answer (lift source parse c) = c.toReading.attempt source parse := by
  unfold lift Reading.attempt
  cases parse c.stream with
  | ok value stream => rfl
  | error complaint stream => rfl

/-- A counted computation answers like the one that it follows. -/
theorem Agrees.answer_eq {parse : Parse α} {counted : EStateM.Result Unit Counter α} {c : Counter}
    (h : Agrees source c (parse c.stream) counted) :
    answer counted = c.toReading.attempt source parse := by
  unfold Reading.attempt
  generalize parse c.stream = result at h
  match result, counted, h with
  | .ok value stream, .ok _ c', ⟨rfl, hreading, _⟩ =>
    show (some value, c'.toReading) = _
    rw [hreading]
  | .error complaint stream, .error _ c', ⟨hreading, _⟩ =>
    show (none, c'.toReading) = _
    rw [hreading]

end Count

/-! ## Calls that report once -/

namespace Reading

variable {α : Type} {source : Source}

/-- What a call does to a reading.  If it fails, the log has one more error and is as it
was otherwise.  If it does not, the log is as it was and a token was read. -/
def ReportsOnce (source : Source) (before : Reading) : Option α × Reading → Prop
  | (none, after) =>
      ∃ complaint, complaint.IsError ∧ after.log = before.log.complain source complaint ∧
        after.log.totalErrors = before.log.totalErrors + 1 ∧
        after.log.totalWarnings = before.log.totalWarnings
  | (some _, after) =>
      after.log = before.log ∧ ∃ token read, before.stream.Passes (token :: read) after.stream

/-- An error is counted as one. -/
theorem reportsOnce_complain {complaint : Complaint} (h : complaint.IsError) (before : Reading)
    (stream : TokenStream) :
    ReportsOnce source before
      ((none : Option α), ⟨stream, before.log.complain source complaint⟩) := by
  have herror : (Diagnostics.diagnosed source complaint).isError = true := decide_eq_true h
  have hpush : before.log.complain source complaint = _ :=
    Diagnostics.push_of_error herror before.log
  refine ⟨complaint, h, rfl, ?_, ?_⟩ <;> simp only [hpush]

/-- Readers of a grammar without empty words report once. -/
theorem reportsOnce_attempt {parse : Parse α} {erase : α → α}
    {G : List Token.Kind → Token.Kind → α → Prop} (hsound : Parse.Sound erase G parse)
    (hforward : parse.Forward) (hproper : ∀ read next value, G read next value → Grammar.Proper read)
    (before : Reading) : ReportsOnce source before (before.attempt source parse) := by
  have hread := hsound before.stream
  have hleads := hforward before.stream
  unfold attempt
  cases hresult : parse before.stream with
  | error complaint stream =>
    rw [hresult] at hread
    exact reportsOnce_complain hread before stream
  | ok value stream =>
    rw [hresult] at hread hleads
    obtain ⟨kinds, hkinds, hderived⟩ := hread
    obtain ⟨read, hpasses⟩ := hleads
    refine ⟨rfl, ?_⟩
    cases read with
    | cons token read => exact ⟨token, read, hpasses⟩
    | nil =>
      -- the derived tokens are those that were passed over
      have hsame : before.stream.kinds = stream.kinds := congrArg (·.map (·.kind)) hpasses.rest
      rw [hsame, List.self_eq_append_left] at hkinds
      exact absurd hkinds (hproper kinds stream.kind _ hderived).ne_nil

theorem reportsOnce_unitExpr (fuel : Nat) (before : Reading) :
    ReportsOnce source before (before.attempt source (Parse.unitExpr fuel)) :=
  reportsOnce_attempt (Parse.sound_unitExpr fuel) (Parse.forward_unitExpr fuel)
    (fun _ _ _ => Grammar.UnitNested.proper) before

theorem reportsOnce_expression (fuel levels : Nat) (before : Reading) :
    ReportsOnce source before (before.attempt source (Parse.expression fuel levels)) :=
  reportsOnce_attempt (Parse.sound_expression fuel levels) (Parse.forward_expression fuel levels)
    (fun _ _ _ => Grammar.Expression.proper) before

/-! ## The result -/

/-- Reading a unit or a value neither fails in silence nor reports twice.  Wherever the
stream stands and however many expressions and blocks are open, a call that fails has added
one error, and a call that does not fail has added nothing to the log and has read a token.
The calls record what is wrong where they find it, also in the units inside of a value,
and they answer like the readers that hand their complaint on. -/
theorem failures_reported_once (source : Source) (fuel : Nat) (c : Counter) :
    ReportsOnce source c.toReading (Count.answer (Count.unitExpr source fuel c)) ∧
    ReportsOnce source c.toReading (Count.answer (Count.expression source fuel c)) ∧
    -- every step of the calls has the log in its state, also in the units of a value
    (∀ number, Count.lift source (Parse.unitSuffix fuel number) =
      Count.unitSuffix source fuel number) ∧
    (∀ value, Count.lift source (Parse.casts fuel value) = Count.casts source fuel value) ∧
    -- the calls answer like the readers of which `Program.parse` is made
    Count.answer (Count.unitExpr source fuel c) =
      c.toReading.attempt source (Parse.unitExpr fuel) ∧
    Count.answer (Count.expression source fuel c) =
      c.toReading.attempt source (Parse.expression fuel (maxNesting - c.depth)) := by
  have hunit : Count.answer (Count.unitExpr source fuel c) =
      c.toReading.attempt source (Parse.unitExpr fuel) := by
    rw [Count.unitExpr_eq_lift, Count.answer_lift]
  have hvalue : Count.answer (Count.expression source fuel c) =
      c.toReading.attempt source (Parse.expression fuel (maxNesting - c.depth)) :=
    (Count.follows_expression fuel c.depth c rfl).answer_eq
  refine ⟨?_, ?_, fun number => ?_, fun value => ?_, hunit, hvalue⟩
  · rw [hunit]
    exact reportsOnce_unitExpr fuel c.toReading
  · rw [hvalue]
    exact reportsOnce_expression fuel (maxNesting - c.depth) c.toReading
  · exact (Count.unitSuffix_eq_lift fuel number).symm
  · exact (Count.casts_eq_lift fuel value).symm

/-- An exponent without a number, in a cast inside of two parentheses, is one error. -/
example :
    let source : Source := ⟨"s", "((1 + x[m^-]))"⟩
    let call := Count.answer
      (Count.expression source 20 ⟨⟨.ofTokens source.lex.tokens, ∅⟩, 0, []⟩)
    call.1 = none ∧ call.2.log.totalErrors = 1 := by
  decide +kernel

end Reading

end UnitScript
