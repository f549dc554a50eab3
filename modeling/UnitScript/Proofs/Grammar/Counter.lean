import UnitScript.Proofs.Grammar.Depth

/-!
# The nesting counter

The reader is given the levels that are left, so nothing can go wrong with them.  Here
is a reader with one counter instead.  The counter is raised where an expression or a
block is entered and lowered where it is left, also where reading fails in between.
The two readers agree, and so the counter never drifts.

* `NestingEvent` is what happens to the counter, and `Exact` the traces in which it
  always counts the expressions and blocks that are open.
* `Counter` is what is read and the counter, `Count` a computation on it that may fail.
  `Count.within` is the only place that moves the counter.
* `Count.expression`, `Counter.block` and `Counter.parse` read as `Parse.expression`,
  `Reading.block` and `Program.parse` do.
* `Count.Follows` relates computations with the counter to those with levels.
  `Follows.bind` carries it through a sequence, and `follows_expression`,
  `traces_statements` and `parse_nesting_exact` are the results.
-/

namespace UnitScript

/-! ## Traces -/

/-- What takes a level while it is read. -/
inductive Construct where
  | expression
  | block

/-- What is complained about when there is no level left for it. -/
def Construct.tooDeep : Construct → Problem
  | .expression => .deepExpression
  | .block => .deepBlock

/-- Something nests too deep. -/
def Problem.IsNesting : Problem → Prop
  | .deepExpression => True
  | .deepBlock => True
  | _ => False

theorem Problem.AsksForToken.not_isNesting {problem : Problem} (h : problem.AsksForToken) :
    ¬ problem.IsNesting := by
  cases problem with
  | deepExpression => exact h.elim
  | deepBlock => exact h.elim
  | _ => exact id

/-- What happens while tokens are read.  An entry and a refusal have the counter in front
of them, and leaving has the counter behind it. -/
inductive NestingEvent where
  | enters (construct : Construct) (span : Span) (depth : Nat)
  | refuses (construct : Construct) (span : Span) (depth : Nat)
  | leaves (depth : Nat)
  | complains (complaint : Complaint)

namespace NestingEvent

/-- What an event reports. -/
def complaint? : NestingEvent → Option Complaint
  | .enters _ _ _ => none
  | .refuses construct span _ => some ⟨construct.tooDeep, span⟩
  | .leaves _ => none
  | .complains complaint => some complaint

/-- What the events report, in order. -/
def complaints (trace : List NestingEvent) : List Complaint := trace.filterMap complaint?

/-- The trace starts and ends with `n` expressions and blocks open.  The counter is their
number whenever something is entered or left, nothing is entered when as many are open
as are allowed, and only then something is refused and reported to nest too deep. -/
inductive Exact : Nat → List NestingEvent → Prop
  | nil (n : Nat) : Exact n []
  | complains {n complaint trace} : ¬ complaint.problem.IsNesting → Exact n trace →
      Exact n (.complains complaint :: trace)
  | refuses {n construct span trace} : maxNesting ≤ n → Exact n trace →
      Exact n (.refuses construct span n :: trace)
  | enters {n construct span inner trace} : n < maxNesting → Exact (n + 1) inner →
      Exact n trace → Exact n (.enters construct span n :: (inner ++ .leaves n :: trace))

theorem Exact.append {n : Nat} {trace later : List NestingEvent} (h : Exact n trace)
    (hlater : Exact n later) : Exact n (trace ++ later) := by
  induction h with
  | nil n => exact hlater
  | complains hother _ ih => exact .complains hother (ih hlater)
  | refuses hfull _ ih => exact .refuses hfull (ih hlater)
  | enters hroom hinner _ _ ih =>
    rw [List.cons_append, List.append_assoc, List.cons_append]
    exact .enters hroom hinner (ih hlater)

end NestingEvent

/-! ## Reading with a counter -/

/-- What is read, with the number of expressions and blocks that are open.  The trace is
only looked at from outside. -/
structure Counter extends Reading where
  depth : Nat
  trace : List NestingEvent

namespace Counter

/-- Moves on in the stream. -/
def move (c : Counter) (step : TokenStream → TokenStream) : Counter :=
  { c with stream := step c.stream }

/-- Records a complaint. -/
def report (c : Counter) (source : Source) (complaint : Complaint) : Counter :=
  { c with
    log := c.log.complain source complaint
    trace := c.trace ++ [.complains complaint] }

/-- Raises the counter. -/
def raise (c : Counter) : Counter := { c with depth := c.depth + 1 }

/-- Records what is entered, with the counter raised for it. -/
def enter (c : Counter) (construct : Construct) (span : Span) : Counter :=
  { c with trace := c.trace ++ [.enters construct span (c.depth - 1)] }

/-- Complains that there is no level left, and lowers the counter. -/
def refuse (c : Counter) (source : Source) (construct : Construct) (span : Span) : Counter :=
  { c with
    log := c.log.complain source ⟨construct.tooDeep, span⟩
    depth := c.depth - 1
    trace := c.trace ++ [.refuses construct span (c.depth - 1)] }

/-- Lowers the counter. -/
def leave (c : Counter) : Counter :=
  { c with
    depth := c.depth - 1
    trace := c.trace ++ [.leaves (c.depth - 1)] }

end Counter

/-- Reads an `α` and counts, or fails after it has complained. -/
abbrev Count (α : Type) := EStateM Unit Counter α

namespace Count

variable (source : Source) {α ω : Type}

/-- What is left, whether reading failed or not. -/
def after : EStateM.Result Unit Counter α → Counter
  | .ok _ c => c
  | .error _ c => c

/-- Reads what does not nest. -/
def lift (parse : Parse α) : Count α := fun c =>
  match parse c.stream with
  | .ok value stream => .ok value (c.move fun _ => stream)
  | .error complaint stream => .error () ((c.move fun _ => stream).report source complaint)

/-- Raises the counter, reads, and lowers it again, unless too much is open. -/
def within (construct : Construct) (span : Span) (body : Count α) : Count α := fun c =>
  let c := c.raise
  if maxNesting < c.depth then .error () (c.refuse source construct span)
  else
    match body (c.enter construct span) with
    | .ok value c => .ok value c.leave
    | .error _ c => .error () c.leave

/-! ### Expressions -/

/-- Goes on from the operand `left` as long as operators follow. -/
def chain (op? : Token.Kind → Option ω) (operand : Count α) (join : ω → α → α → α) :
    (fuel : Nat) → α → Count α
  | 0, left => pure left
  | fuel + 1, left => do
      match op? (← lift source Parse.peek) with
      | none => pure left
      | some op => do
          let _ ← lift source Parse.advance
          let right ← operand
          chain op? operand join fuel (join op left right)

/-- Reads operands that are joined from left to right. -/
def leftAssoc (fuel : Nat) (op? : Token.Kind → Option ω) (operand : Count α)
    (join : ω → α → α → α) : Count α := do
  let left ← operand
  chain source op? operand join fuel left

/-- Reads a primary; `nested` reads what stands in parentheses. -/
def primary (fuel : Nat) (nested : Count Expr) : Count Expr := do
  match ← lift source Parse.peek with
  | .integer n => do
      let span ← lift source Parse.advance
      lift source (Parse.unitSuffix fuel (.literal (.integer n) span))
  | .real x => do
      let span ← lift source Parse.advance
      lift source (Parse.unitSuffix fuel (.literal (.real x) span))
  | .string s => return .literal (.string s) (← lift source Parse.advance)
  | .character c => return .literal (.character c) (← lift source Parse.advance)
  | .keyword .true => return .literal (.boolean true) (← lift source Parse.advance)
  | .keyword .false => return .literal (.boolean false) (← lift source Parse.advance)
  | .keyword .none => return .literal .none (← lift source Parse.advance)
  | .identifier name => return .identifier name (← lift source Parse.advance)
  | .leftParen => do
      let opening ← lift source Parse.advance
      lift source Parse.skipNewlines
      let inner ← nested
      lift source Parse.skipNewlines
      lift source (Parse.expect .rightParen)
      return .paren inner (opening.join (← lift source Parse.previous))
  | found => lift source (Parse.fail (.expectedExpression found))

/-- Reads a primary and the casts behind it. -/
def operand (fuel : Nat) (nested : Count Expr) : Count Expr := do
  let value ← primary source fuel nested
  lift source (Parse.casts fuel value)

/-- Reads a power; `exponent` reads what stands behind `^`. -/
def power (fuel : Nat) (nested exponent : Count Expr) : Count Expr := do
  let base ← operand source fuel nested
  if ← lift source (Parse.eat .caret) then
    return .join (.arith .pow) base (← exponent)
  else
    return base

/-- Reads an expression whose factors `unary` reads, and counts it. -/
def nestedWith (fuel : Nat) (unary : Count Expr) : Count Expr := do
  let span ← lift source Parse.here
  within source .expression span
    (leftAssoc source fuel Parse.comparisonOp?
      (leftAssoc source fuel Parse.sumOp?
        (leftAssoc source fuel Parse.productOp? unary .join) .join) .join)

/-- Reads a factor. -/
def unary : (fuel : Nat) → Count Expr
  | 0 => lift source (do Parse.fail (.expectedExpression (← Parse.peek)))
  | fuel + 1 => do
      match ← lift source Parse.peek with
      | .minus => do
          let minus ← lift source Parse.advance
          let value ← unary fuel
          return .negate value (minus.join value.span)
      | _ => power source fuel (nestedWith source fuel (unary fuel)) (unary fuel)

/-- Reads an expression. -/
def expression (fuel : Nat) : Count Expr := nestedWith source fuel (unary source fuel)

/-- Reads an assignment or a displayed expression. -/
def simpleStatement (fuel : Nat) : Count Stmt := fun c =>
  match c.stream.kind, c.stream.secondKind with
  | .identifier name, .assign =>
      (do
        let target ← lift source Parse.advance
        let _ ← lift source Parse.advance
        let value ← expression source fuel
        return Stmt.assign ⟨name, target⟩ value (target.join value.span)) c
  | _, _ =>
      (do
        let value ← expression source fuel
        if (← lift source Parse.peek) = Token.Kind.assign then
          lift source (Parse.fail .notAssignable)
        else return Stmt.display value) c

end Count

/-! ### Statements -/

namespace Counter

variable (source : Source)

/-- Reads a block; `body` reads its statements up to the closing brace. -/
def block (body : Counter → List Stmt × Counter) (c : Counter) : Option Stmt × Counter :=
  let opening := c.stream.span
  let statements : Count (List Stmt) := fun c => .ok (body c).1 (body c).2
  match Count.within source .block opening statements (c.move .advance) with
  | .error _ c => (none, c)
  | .ok statements c =>
      if c.stream.kind = .rightBrace then
        let c := c.move .advance
        (some (.block statements (opening.join c.stream.previous)), c)
      else
        (none, c.report source ⟨.unclosedBlock, opening⟩)

/-- Reads a statement; `body` reads the statements of a block. -/
def statement (fuel : Nat) (body : Counter → List Stmt × Counter) (c : Counter) :
    Option Stmt × Counter :=
  if c.stream.kind = .leftBrace then c.block source body
  else
    match Count.simpleStatement source fuel c with
    | .ok statement c => (some statement, c)
    | .error _ c => (none, c)

/-- Reads the end of a statement. -/
def endStatement (c : Counter) : Counter :=
  match c.stream.kind with
  | .newline => c.move .skipNewlines
  | .endOfFile => c
  | .rightBrace => c
  | found => (c.report source ⟨.expectedStatementEnd found, c.stream.span⟩).move .synchronize

/-- One turn of reading statements. -/
def turn (fuel : Nat) (body : Counter → List Stmt × Counter) (c : Counter) :
    Option Stmt × Counter :=
  if c.stream.kind = .rightBrace then
    (none, (c.report source ⟨.unmatchedBrace, c.stream.span⟩).move .advance)
  else
    match c.statement source fuel body with
    | (some statement, after) => (some statement, after.endStatement source)
    | (none, after) => (none, after.move .synchronize)

/-- Reads statements up to the end of the file or, inside a block, up to a closing
brace. -/
def statements : (fuel : Nat) → (inBlock : Bool) → Counter → List Stmt × Counter
  | 0, _, c => ([], c)
  | fuel + 1, inBlock, c =>
      let here := c.move .skipNewlines
      if here.stops inBlock then ([], here)
      else
        let next := here.turn source (fuel + 1) (statements fuel true)
        let later := statements fuel inBlock next.2
        (next.1.toList ++ later.1, later.2)

/-- Reads a whole token list, with the counter at zero. -/
def parse (tokens : List Token) : Parsed × Counter :=
  let stream := (TokenStream.ofTokens tokens).skipNewlines
  let (found, c) := statements source (stream.rest.length + 1) false
    { stream := stream, log := ∅, depth := 0, trace := [] }
  let span := stream.span.join c.stream.previous
  ({ program := if found.isEmpty && c.log.hasErrors then none else some ⟨found, span⟩
     log := c.log }, c)

end Counter

/-! ## Steps with the counter -/

namespace Counter

variable {source : Source} {c c' c'' : Counter} {construct : Construct} {span : Span}

/-- From `c` to `c'` the counter was restored.  What happened in between is exact, and
what it reports was logged. -/
structure Grows (source : Source) (c c' : Counter) : Prop where
  depth : c'.depth = c.depth
  events : ∃ new, c'.trace = c.trace ++ new ∧ NestingEvent.Exact c.depth new ∧
    c'.log = c.log.complainAll source (NestingEvent.complaints new)

theorem grows_move (c : Counter) (step : TokenStream → TokenStream) :
    c.Grows source (c.move step) :=
  ⟨rfl, [], (List.append_nil _).symm, .nil _, rfl⟩

theorem Grows.trans (h : c.Grows source c') (h' : c'.Grows source c'') : c.Grows source c'' := by
  obtain ⟨hdepth, new, htrace, hexact, hlog⟩ := h
  obtain ⟨hdepth', later, htrace', hexact', hlog'⟩ := h'
  refine ⟨hdepth'.trans hdepth, new ++ later, ?_, hexact.append (hdepth ▸ hexact'), ?_⟩
  · rw [htrace', htrace, List.append_assoc]
  · rw [hlog', hlog, NestingEvent.complaints, NestingEvent.complaints, NestingEvent.complaints,
      List.filterMap_append, Diagnostics.complainAll_append]

theorem grows_report {complaint : Complaint} (h : ¬ complaint.problem.IsNesting) :
    c.Grows source (c.report source complaint) :=
  ⟨rfl, [.complains complaint], rfl, .complains h (.nil _), rfl⟩

/-- Where too much is open, nothing is entered. -/
theorem grows_refuse (h : maxNesting < c.raise.depth) :
    c.Grows source (c.raise.refuse source construct span) :=
  ⟨rfl, [.refuses construct span c.depth], rfl, .refuses (Nat.le_of_lt_succ h) (.nil _), rfl⟩

/-- What is entered is left with the counter that it was entered with. -/
theorem Grows.leave (hroom : ¬ maxNesting < c.raise.depth)
    (h : (c.raise.enter construct span).Grows source c') : c.Grows source c'.leave := by
  obtain ⟨hdepth, inner, htrace, hexact, hlog⟩ := h
  have hlowered : c'.depth - 1 = c.depth := congrArg (· - 1) hdepth
  refine ⟨hlowered, .enters construct span c.depth :: (inner ++ [.leaves c.depth]), ?_,
    .enters (Nat.lt_of_succ_le (Nat.not_lt.1 hroom)) hexact (.nil _), ?_⟩
  · show c'.trace ++ [.leaves (c'.depth - 1)] = _
    rw [htrace, hlowered]
    simp [enter, raise]
  · show c'.log = _
    rw [hlog, NestingEvent.complaints, NestingEvent.complaints, List.filterMap_cons_none rfl,
      List.filterMap_append, List.filterMap_cons_none rfl, List.filterMap_nil, List.append_nil]
    rfl

end Counter

namespace Count

variable {source : Source} {α β ω : Type} {d : Nat} {c c' : Counter}

/-- Both read the same, and the counter is restored. -/
def Agrees (source : Source) (c : Counter) :
    EStateM.Result Complaint TokenStream α → EStateM.Result Unit Counter α → Prop
  | .ok value stream, .ok value' c' =>
      value' = value ∧ c'.toReading = ⟨stream, c.log⟩ ∧ c.Grows source c'
  | .error complaint stream, .error _ c' =>
      c'.toReading = ⟨stream, c.log.complain source complaint⟩ ∧ c.Grows source c'
  | _, _ => False

/-- With `d` expressions and blocks open, the counted computation reads what the other
one does. -/
def Follows (source : Source) (d : Nat) (parse : Parse α) (count : Count α) : Prop :=
  ∀ c : Counter, c.depth = d → Agrees source c (parse c.stream) (count c)

theorem Agrees.of_grows {result : EStateM.Result Complaint TokenStream α}
    {counted : EStateM.Result Unit Counter α} (hgrows : c.Grows source c') (hlog : c'.log = c.log)
    (h : Agrees source c' result counted) : Agrees source c result counted := by
  match result, counted, h with
  | .ok value stream, .ok value' c'', ⟨hvalue, hreading, hlater⟩ =>
    exact ⟨hvalue, hlog ▸ hreading, hgrows.trans hlater⟩
  | .error complaint stream, .error _ c'', ⟨hreading, hlater⟩ =>
    exact ⟨hlog ▸ hreading, hgrows.trans hlater⟩

theorem Follows.bind {parse : Parse α} {count : Count α} {next : α → Parse β}
    {next' : α → Count β} (h : Follows source d parse count)
    (hnext : ∀ value, Follows source d (next value) (next' value)) :
    Follows source d (parse >>= next) (count >>= next') := by
  intro c hc
  have hread := h c hc
  show Agrees source c (EStateM.bind parse next c.stream) (EStateM.bind count next' c)
  unfold EStateM.bind
  generalize parse c.stream = result at hread
  generalize count c = counted at hread
  match result, counted, hread with
  | .ok value stream, .ok _ c', ⟨rfl, hreading, hgrows⟩ =>
    have hlog : c'.log = c.log := by rw [hreading]
    have hstream : c'.stream = stream := by rw [hreading]
    have hlater := hnext value c' (hgrows.depth.trans hc)
    rw [hstream] at hlater
    exact hlater.of_grows hgrows hlog
  | .error complaint stream, .error _ c', hread => exact hread

theorem Agrees.depth_after {result : EStateM.Result Complaint TokenStream α}
    {counted : EStateM.Result Unit Counter α} (h : Agrees source c result counted) :
    (after counted).depth = c.depth := by
  match result, counted, h with
  | .ok _ _, .ok _ _, ⟨_, _, hgrows⟩ => exact hgrows.depth
  | .error _ _, .error _ _, ⟨_, hgrows⟩ => exact hgrows.depth

theorem follows_pure (value : α) : Follows source d (pure value) (pure value : Count α) :=
  fun c _ => ⟨rfl, rfl, c.grows_move id⟩

/-- Reading that does not complain about nesting does nothing to the counter. -/
theorem follows_lift {parse : Parse α}
    (h : ∀ s, Parse.Ends (fun _ _ => True) (fun complaint => ¬ complaint.problem.IsNesting)
      (parse s)) : Follows source d parse (lift source parse) := by
  intro c _
  have hread := h c.stream
  unfold lift
  cases hresult : parse c.stream with
  | ok value stream => exact ⟨rfl, rfl, c.grows_move _⟩
  | error complaint stream =>
    rw [hresult] at hread
    exact ⟨rfl, (c.grows_move fun _ => stream).trans (Counter.grows_report hread)⟩

theorem follows_inside {parse : Parse α} (h : parse.StaysInside Problem.AsksForToken) :
    Follows source d parse (lift source parse) := by
  refine follows_lift fun s => ?_
  have hread := h s
  cases hresult : parse s with
  | ok value stream => trivial
  | error complaint stream =>
    rw [hresult] at hread
    exact hread.2.not_isNesting

/-- A step that never fails. -/
theorem follows_step {parse : Parse α} {value : TokenStream → α}
    {step : TokenStream → TokenStream} (h : ∀ s, parse s = .ok (value s) (step s)) :
    Follows source d parse (lift source parse) := by
  refine follows_lift fun s => ?_
  rw [h]
  trivial

theorem follows_peek : Follows source d Parse.peek (lift source Parse.peek) :=
  follows_step fun _ => rfl

theorem follows_advance : Follows source d Parse.advance (lift source Parse.advance) :=
  follows_step fun _ => rfl

theorem follows_skipNewlines :
    Follows source d Parse.skipNewlines (lift source Parse.skipNewlines) :=
  follows_step fun _ => rfl

/-! ## Expressions agree -/

theorem follows_leftAssoc (op? : Token.Kind → Option ω) {operand : Parse α} {operand' : Count α}
    (h : Follows source d operand operand') (join : ω → α → α → α) (fuel : Nat) :
    Follows source d (Parse.leftAssoc fuel op? operand join)
      (leftAssoc source fuel op? operand' join) := by
  have hchain (fuel : Nat) (left : α) :
      Follows source d (Parse.chain op? operand join fuel left)
        (chain source op? operand' join fuel left) := by
    induction fuel generalizing left with
    | zero => exact follows_pure left
    | succ fuel ih =>
      rw [Parse.chain, chain]
      refine follows_peek.bind fun kind => ?_
      cases op? kind with
      | none => exact follows_pure left
      | some op => exact follows_advance.bind fun _ => h.bind fun right => ih _
  exact h.bind fun left => hchain fuel left

section Values

variable {nested exponent : Parse Expr} {nested' exponent' : Count Expr}
  (hnested : Follows source d nested nested')

include hnested

theorem follows_primary (fuel : Nat) :
    Follows source d (Parse.primary fuel nested) (primary source fuel nested') := by
  have hconstant (make : Span → Expr) : Follows source d
      (do return make (← Parse.advance)) (do return make (← lift source Parse.advance)) :=
    follows_advance.bind fun span => follows_pure (make span)
  have hnumber (value : Literal) : Follows source d
      (do Parse.unitSuffix fuel (.literal value (← Parse.advance)))
      (do
        let span ← lift source Parse.advance
        lift source (Parse.unitSuffix fuel (.literal value span))) :=
    follows_advance.bind fun _ => follows_inside (Parse.inside_unitSuffix fuel _)
  refine follows_peek.bind fun kind => ?_
  cases kind with
  | integer n => exact hnumber (.integer n)
  | real x => exact hnumber (.real x)
  | string text => exact hconstant _
  | character char => exact hconstant _
  | keyword word => cases word <;> exact hconstant _
  | identifier name => exact hconstant _
  | leftParen =>
    refine follows_advance.bind fun _ => follows_skipNewlines.bind fun _ => ?_
    refine hnested.bind fun _ => follows_skipNewlines.bind fun _ => ?_
    refine (follows_inside (Parse.inside_expect .rightParen (by simp))).bind fun _ => ?_
    exact (follows_inside Parse.inside_previous).bind fun _ => follows_pure _
  | _ => exact follows_inside (Parse.inside_fail trivial)

theorem follows_power (hexponent : Follows source d exponent exponent') (fuel : Nat) :
    Follows source d (Parse.power fuel nested exponent)
      (power source fuel nested' exponent') := by
  have hoperand : Follows source d (Parse.operand fuel nested) (operand source fuel nested') :=
    (follows_primary hnested fuel).bind fun value => follows_inside (Parse.inside_casts fuel value)
  refine hoperand.bind fun base => ?_
  refine (follows_inside (Parse.inside_eat .caret (by simp))).bind fun caret => ?_
  cases caret with
  | true => exact hexponent.bind fun _ => follows_pure _
  | false => exact follows_pure base

end Values

/-- What is read inside is read with one level less. -/
theorem follows_within {construct : Construct} {parse : Parse α} {count : Count α}
    (hroom : d < maxNesting) (h : Follows source (d + 1) parse count) (span : Span) :
    Follows source d parse (within source construct span count) := by
  rintro c rfl
  have hfits : ¬ maxNesting < c.raise.depth := Nat.not_lt.2 hroom
  have hread := h (c.raise.enter construct span) rfl
  simp only [within, if_neg hfits]
  change Agrees source _ (parse c.stream) _ at hread
  generalize parse c.stream = result at hread
  generalize count (c.raise.enter construct span) = counted at hread
  match result, counted, hread with
  | .ok value stream, .ok _ c', ⟨rfl, hreading, hgrows⟩ => exact ⟨rfl, hreading, hgrows.leave hfits⟩
  | .error complaint stream, .error _ c', ⟨hreading, hgrows⟩ =>
    exact ⟨hreading, hgrows.leave hfits⟩

/-- The levels that are left are those that are not open. -/
theorem follows_nestedWith {unary : (levels : Nat) → Parse Expr} {unary' : Count Expr}
    (hunary : ∀ d, Follows source d (unary (maxNesting - d)) unary') (fuel d : Nat) :
    Follows source d (Parse.nestedWith fuel unary (maxNesting - d))
      (nestedWith source fuel unary') := by
  rintro c rfl
  by_cases hroom : c.depth < maxNesting
  · have hlevels : maxNesting - c.depth = maxNesting - (c.depth + 1) + 1 := by omega
    have hproduct := follows_leftAssoc Parse.productOp? (hunary (c.depth + 1)) .join fuel
    have hsum := follows_leftAssoc Parse.sumOp? hproduct .join fuel
    have hcomparison := follows_leftAssoc Parse.comparisonOp? hsum .join fuel
    rw [hlevels]
    exact follows_within hroom hcomparison c.stream.span c rfl
  · have hlevels : maxNesting - c.depth = 0 := by omega
    have hfull : maxNesting < c.raise.depth := Nat.lt_succ_of_le (Nat.not_lt.1 hroom)
    rw [hlevels]
    show Agrees source c _ (within source .expression c.stream.span _ c)
    simp only [within, if_pos hfull]
    exact ⟨rfl, Counter.grows_refuse hfull⟩

theorem follows_unary (fuel d : Nat) :
    Follows source d (Parse.unary fuel (maxNesting - d)) (unary source fuel) := by
  induction fuel generalizing d with
  | zero => exact follows_lift fun s => Problem.AsksForToken.not_isNesting trivial
  | succ fuel ih =>
    have hpower := follows_power (follows_nestedWith ih fuel d) (ih d) fuel
    rw [Parse.unary, unary]
    refine follows_peek.bind fun kind => ?_
    cases kind with
    | minus => exact follows_advance.bind fun _ => (ih d).bind fun _ => follows_pure _
    | _ => exact hpower

theorem follows_expression (fuel d : Nat) :
    Follows source d (Parse.expression fuel (maxNesting - d)) (expression source fuel) :=
  follows_nestedWith (follows_unary fuel) fuel d

theorem follows_simpleStatement (fuel d : Nat) :
    Follows source d (Parse.simpleStatement fuel (maxNesting - d))
      (simpleStatement source fuel) := by
  have hvalue : Follows source d _ _ := follows_expression fuel d
  have hassign (name : String) : Follows source d
      (do
        let target ← Parse.advance
        let _ ← Parse.advance
        let value ← Parse.expression fuel (maxNesting - d)
        return Stmt.assign ⟨name, target⟩ value (target.join value.span))
      (do
        let target ← lift source Parse.advance
        let _ ← lift source Parse.advance
        let value ← expression source fuel
        return Stmt.assign ⟨name, target⟩ value (target.join value.span)) :=
    follows_advance.bind fun _ => follows_advance.bind fun _ => hvalue.bind fun _ => follows_pure _
  have hdisplay : Follows source d
      (do
        let value ← Parse.expression fuel (maxNesting - d)
        if (← Parse.peek) = Token.Kind.assign then Parse.fail .notAssignable
        else return Stmt.display value)
      (do
        let value ← expression source fuel
        if (← lift source Parse.peek) = Token.Kind.assign then
          lift source (Parse.fail .notAssignable)
        else return Stmt.display value) := by
    refine hvalue.bind fun value => follows_peek.bind fun kind => ?_
    by_cases hkind : kind = .assign
    · rw [if_pos hkind, if_pos hkind]
      exact follows_lift fun s => id
    · rw [if_neg hkind, if_neg hkind]
      exact follows_pure _
  intro c hc
  unfold Parse.simpleStatement simpleStatement
  generalize c.stream.kind = kind
  generalize c.stream.secondKind = second
  cases kind with
  | identifier name =>
    cases second with
    | assign => exact hassign name c hc
    | _ => exact hdisplay c hc
  | _ => exact hdisplay c hc

end Count

/-! ## Statements agree -/

namespace Counter

variable {source : Source} {α : Type}

/-- Both read the same, and the counter is restored. -/
structure Traces (source : Source) (c : Counter) (read : α × Reading) (counted : α × Counter) :
    Prop where
  value : counted.1 = read.1
  reading : counted.2.toReading = read.2
  grows : c.Grows source counted.2

section Bodies

variable {body : (levels : Nat) → Reading → List Stmt × Reading}
  {body' : Counter → List Stmt × Counter}
  (hbody : ∀ c : Counter, Traces source c (body (maxNesting - c.depth) c.toReading) (body' c))

include hbody

theorem traces_block (c : Counter) :
    Traces source c (c.toReading.block source body (maxNesting - c.depth))
      (c.block source body') := by
  have hmoved : c.Grows source (c.move .advance) := c.grows_move _
  by_cases hroom : c.depth < maxNesting
  · have hlevels : maxNesting - c.depth = maxNesting - (c.depth + 1) + 1 := by omega
    have hfits : ¬ maxNesting < (c.move .advance).raise.depth := Nat.not_lt.2 hroom
    have hinner : Traces source ((c.move .advance).raise.enter .block c.stream.span)
        (body (maxNesting - (c.depth + 1)) (c.toReading.move .advance)) (body' _) := hbody _
    rw [hlevels]
    simp only [block, Count.within, if_neg hfits, Reading.block]
    generalize body' ((c.move .advance).raise.enter .block c.stream.span) = counted at hinner
    generalize body (maxNesting - (c.depth + 1)) (c.toReading.move .advance) = read at hinner
    obtain ⟨statements, inner⟩ := counted
    obtain ⟨_, _⟩ := read
    obtain ⟨rfl, rfl, hgrows⟩ := hinner
    have hleft := hmoved.trans (hgrows.leave hfits)
    show Traces source c (if inner.stream.kind = .rightBrace then _ else _)
      (if inner.stream.kind = .rightBrace then _ else _)
    split
    · exact ⟨rfl, rfl, hleft.trans (grows_move _ _)⟩
    · exact ⟨rfl, rfl, hleft.trans (grows_report id)⟩
  · have hlevels : maxNesting - c.depth = 0 := by omega
    have hfull : maxNesting < (c.move .advance).raise.depth :=
      Nat.lt_succ_of_le (Nat.not_lt.1 hroom)
    rw [hlevels]
    simp only [block, Count.within, if_pos hfull, Reading.block]
    exact ⟨rfl, rfl, hmoved.trans (grows_refuse hfull)⟩

theorem traces_statement (fuel : Nat) (c : Counter) :
    Traces source c (c.toReading.statement source fuel body (maxNesting - c.depth))
      (c.statement source fuel body') := by
  unfold statement Reading.statement
  split
  · exact traces_block hbody c
  · have hread : Count.Agrees source c _ _ :=
      Count.follows_simpleStatement fuel c.depth c rfl
    unfold Reading.attempt
    generalize Parse.simpleStatement fuel (maxNesting - c.depth) c.stream = result at hread
    generalize Count.simpleStatement source fuel c = counted at hread
    match result, counted, hread with
    | .ok value stream, .ok _ c', ⟨rfl, hreading, hgrows⟩ => exact ⟨rfl, hreading, hgrows⟩
    | .error complaint stream, .error _ c', ⟨hreading, hgrows⟩ => exact ⟨rfl, hreading, hgrows⟩

omit hbody in
theorem endStatement_toReading (c : Counter) :
    (c.endStatement source).toReading = c.toReading.endStatement source := by
  unfold endStatement Reading.endStatement
  cases c.stream.kind <;> rfl

omit hbody in
theorem grows_endStatement (c : Counter) : c.Grows source (c.endStatement source) := by
  unfold endStatement
  split
  · exact c.grows_move _
  · exact c.grows_move id
  · exact c.grows_move id
  · exact (grows_report id).trans (grows_move _ _)

theorem traces_turn (fuel : Nat) (c : Counter) :
    Traces source c (c.toReading.turn source fuel body (maxNesting - c.depth))
      (c.turn source fuel body') := by
  have hstatement := traces_statement hbody fuel c
  unfold turn Reading.turn
  split
  · exact ⟨rfl, rfl, (grows_report id).trans (grows_move _ _)⟩
  · generalize c.statement source fuel body' = counted at hstatement
    generalize c.toReading.statement source fuel body (maxNesting - c.depth) = read at hstatement
    obtain ⟨found, after⟩ := counted
    obtain ⟨_, _⟩ := read
    obtain ⟨rfl, rfl, hgrows⟩ := hstatement
    cases found with
    | some statement =>
      exact ⟨rfl, endStatement_toReading after, hgrows.trans (grows_endStatement after)⟩
    | none => exact ⟨rfl, rfl, hgrows.trans (grows_move _ _)⟩

end Bodies

/-- Statements are read alike, and the counter is restored behind each of them. -/
theorem traces_statements (fuel : Nat) (inBlock : Bool) (c : Counter) :
    Traces source c
      (Reading.statements source fuel inBlock (maxNesting - c.depth) c.toReading)
      (statements source fuel inBlock c) := by
  induction fuel generalizing inBlock c with
  | zero => exact ⟨rfl, rfl, c.grows_move id⟩
  | succ fuel ih =>
    have hmoved : c.Grows source (c.move .skipNewlines) := c.grows_move _
    rw [Reading.statements_succ, statements]
    show Traces source c (if (c.move .skipNewlines).stops inBlock = true then _ else _)
      (if (c.move .skipNewlines).stops inBlock = true then _ else _)
    split
    · exact ⟨rfl, rfl, hmoved⟩
    · have hturn : Traces source (c.move .skipNewlines)
          ((c.toReading.move .skipNewlines).turn source (fuel + 1)
            (Reading.statements source fuel true) (maxNesting - c.depth)) _ :=
        traces_turn (ih true) (fuel + 1) (c.move .skipNewlines)
      generalize (c.move .skipNewlines).turn source (fuel + 1) (statements source fuel true) =
        next at hturn
      generalize (c.toReading.move .skipNewlines).turn source (fuel + 1)
        (Reading.statements source fuel true) (maxNesting - c.depth) = read at hturn
      obtain ⟨found, next⟩ := next
      obtain ⟨_, _⟩ := read
      obtain ⟨rfl, rfl, hgrows⟩ := hturn
      have hdepth : next.depth = c.depth := hgrows.depth
      obtain ⟨hvalue, hreading, hlater⟩ := ih inBlock next
      rw [hdepth] at hvalue hreading
      exact ⟨congrArg (found.toList ++ ·) hvalue, hreading, hmoved.trans (hgrows.trans hlater)⟩

/-- The two readers read whole token lists alike, from the counter at zero. -/
theorem grows_parse (source : Source) (tokens : List Token) :
    (parse source tokens).1 = Program.parse source tokens ∧
      Grows source ⟨⟨(TokenStream.ofTokens tokens).skipNewlines, ∅⟩, 0, []⟩
        (parse source tokens).2 := by
  let stream := (TokenStream.ofTokens tokens).skipNewlines
  obtain ⟨hvalue, hreading, hgrows⟩ : Traces source _
      (Reading.statements source (stream.rest.length + 1) false maxNesting ⟨stream, ∅⟩) _ :=
    traces_statements (stream.rest.length + 1) false ⟨⟨stream, ∅⟩, 0, []⟩
  refine ⟨?_, hgrows⟩
  simp only [parse, Program.parse]
  rw [← hvalue, ← hreading]

end Counter

/-! ## The result -/

namespace Program

/-- The nesting limit is exact, and it survives errors.  Reading an expression, a block
or a turn of statements restores the counter, whether it fails or not.  Reading a whole
token list with the counter gives what `parse` gives: it starts and ends with the counter
at zero, something is reported to nest too deep exactly when it is entered while
`maxNesting` expressions and blocks are open, and all that is reported is in the log.
And no way through the program crosses more of them. -/
theorem parse_nesting_exact (source : Source) (tokens : List Token) :
    let run := Counter.parse source tokens
    (∀ fuel c, (Count.after (Count.expression source fuel c)).depth = c.depth) ∧
    (∀ fuel c, (Counter.block source (Counter.statements source fuel true) c).2.depth = c.depth) ∧
    (∀ fuel c,
      (Counter.turn source (fuel + 1) (Counter.statements source fuel true) c).2.depth = c.depth) ∧
    (run.1 = parse source tokens ∧ run.2.depth = 0 ∧ NestingEvent.Exact 0 run.2.trace ∧
      run.1.log = Diagnostics.complainAll ∅ source (NestingEvent.complaints run.2.trace)) ∧
    ∀ program, (parse source tokens).program = some program →
      program.depth Descent.guarded ≤ maxNesting := by
  intro run
  obtain ⟨hparse, hgrows⟩ := Counter.grows_parse source tokens
  refine ⟨fun fuel c => ?_, fun fuel c => ?_, fun fuel c => ?_, ⟨hparse, ?_⟩,
    fun program h => (depth_parse h).1⟩
  · exact (Count.follows_expression fuel c.depth c rfl).depth_after
  · exact (Counter.traces_block (Counter.traces_statements fuel true) c).grows.depth
  · exact (Counter.traces_turn (Counter.traces_statements fuel true) (fuel + 1) c).grows.depth
  · obtain ⟨hdepth, new, htrace, hexact, hlog⟩ := hgrows
    rw [List.nil_append] at htrace
    exact ⟨hdepth, htrace ▸ hexact, htrace ▸ hlog⟩

/-- Too many parentheses on the first line are reported once, and the block on the second
line is read with the counter at zero. -/
theorem parse_nesting_exact_recovers :
    let source : Source :=
      ⟨"s", String.ofList (List.replicate 64 '(' ++ ['1', '\n', '\x7b', '(', 'x', ')', '\x7d'])⟩
    let parsed := parse source source.lex.tokens
    ∃ program, parsed.program = some program ∧ parsed.log.totalErrors = 1 ∧
      program.depth Descent.guarded = 3 ∧ program.depth Descent.guarded ≤ maxNesting ∧
      (Counter.parse source source.lex.tokens).2.depth = 0 := by
  intro source parsed
  have hread : parsed.log.totalErrors = 1 ∧
      parsed.program.map (·.depth Descent.guarded) = some 3 := by
    decide +kernel
  obtain ⟨program, hprogram, hdepth⟩ := Option.map_eq_some_iff.1 hread.2
  obtain ⟨_, _, _, ⟨_, hzero, _⟩, hshallow⟩ := parse_nesting_exact source source.lex.tokens
  exact ⟨program, hprogram, hread.1, hdepth, hshallow program hprogram, hzero⟩

end Program

end UnitScript
