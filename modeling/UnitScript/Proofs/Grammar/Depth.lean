import UnitScript.Proofs.Grammar.Programs
import UnitScript.Proofs.Grammar.Termination
import UnitScript.Token.Lexer

/-!
# How deep programs nest

The reader calls itself for blocks, for values in parentheses, behind a minus sign,
behind a `^` and for units in parentheses.  Only blocks and value expressions take a
level of the budget, so only they are bounded by it.  The other three nest as deep as
the tokens allow.

* `Descent` lists what the reader descends into, and `depth` is the most of it on a way
  from the root of a tree to a leaf.
* `Expr.Shallow` and `Stmt.Shallow` are the bounds by the budget and by the number of
  tokens.  `Grammar.Expression.shallow` finds them in a derivation, `shallow_statements`
  in what is read, also where something is skipped.
* `Grammar.exists_script` derives programs of every depth for each of the unguarded
  descents, and `parse_depth_unguarded` is the result.
-/

namespace UnitScript

/-- What the reader descends into. -/
inductive Descent where
  | block
  /-- The expression of a statement. -/
  | expression
  /-- A value in parentheses. -/
  | paren
  /-- What stands behind a minus sign. -/
  | negation
  /-- What stands behind the `^` of a value. -/
  | exponent
  /-- A unit in parentheses. -/
  | group
deriving DecidableEq

namespace Descent

/-- The descents that take a level of the budget. -/
def guarded : List Descent := [.block, .expression, .paren]

/-- The descents that take none. -/
def unguarded : List Descent := [.negation, .exponent, .group]

/-- The nodes of a tree in which the reader calls itself. -/
def recursive : List Descent := [.block, .paren, .negation, .exponent, .group]

theorem count_recursive_le_one (descent : Descent) : recursive.count descent ≤ 1 := by
  cases descent <;> decide

theorem count_recursive_le (descent : Descent) :
    recursive.count descent ≤ guarded.count descent + unguarded.count descent := by
  cases descent <;> decide

end Descent

/-! ## The depth of trees -/

/-- The descents of an operator into its right operand. -/
def BinaryOp.depth (counted : List Descent) (op : BinaryOp) : Nat :=
  if op = .arith .pow then counted.count .exponent else 0

/-- The most descents of the counted kinds on a way through the unit. -/
def UnitExpr.depth (counted : List Descent) : UnitExpr → Nat
  | .symbol _ _ => 0
  | .number _ _ => 0
  | .binary _ left right _ => max (left.depth counted) (right.depth counted)
  | .group inner _ => counted.count .group + inner.depth counted

/-- The most descents of the counted kinds on a way through the expression. -/
def Expr.depth (counted : List Descent) : Expr → Nat
  | .literal _ _ => 0
  | .identifier _ _ => 0
  | .negate operand _ => counted.count .negation + operand.depth counted
  | .binary op left right _ => max (left.depth counted) (op.depth counted + right.depth counted)
  | .cast value unit _ => max (value.depth counted) (unit.depth counted)
  | .paren inner _ => counted.count .paren + inner.depth counted

namespace Stmt

mutual

/-- The most descents of the counted kinds on a way through the statement. -/
def depth (counted : List Descent) : Stmt → Nat
  | .assign _ value _ => counted.count .expression + value.depth counted
  | .display value => counted.count .expression + value.depth counted
  | .block body _ => counted.count .block + depthAll counted body

/-- The most descents of the counted kinds on a way through one of the statements. -/
def depthAll (counted : List Descent) : List Stmt → Nat
  | [] => 0
  | statement :: later => max (statement.depth counted) (depthAll counted later)

end

end Stmt

/-- The most descents of the counted kinds on a way through the program. -/
def Program.depth (counted : List Descent) (program : Program) : Nat :=
  Stmt.depthAll counted program.statements

section Depth

variable {counted a b c : List Descent}

theorem Stmt.depthAll_le_iff {n : Nat} {statements : List Stmt} :
    depthAll counted statements ≤ n ↔ ∀ statement ∈ statements, statement.depth counted ≤ n := by
  induction statements with
  | nil => simp [depthAll]
  | cons statement later ih => rw [depthAll, Nat.max_le, ih, List.forall_mem_cons]

/-! ### Spans do not matter -/

theorem UnitExpr.depth_erase (unit : UnitExpr) : unit.erase.depth counted = unit.depth counted := by
  induction unit with
  | symbol name span => rfl
  | number value span => rfl
  | binary op left right span ihleft ihright => rw [erase, depth, depth, ihleft, ihright]
  | group inner span ih => rw [erase, depth, depth, ih]

theorem Expr.depth_erase (e : Expr) : e.erase.depth counted = e.depth counted := by
  induction e with
  | literal value span => rfl
  | identifier name span => rfl
  | negate operand span ih => rw [erase, depth, depth, ih]
  | binary op left right span ihleft ihright => rw [erase, depth, depth, ihleft, ihright]
  | cast value unit span ih => rw [erase, depth, depth, ih, UnitExpr.depth_erase]
  | paren inner span ih => rw [erase, depth, depth, ih]

namespace Stmt

mutual

theorem depth_erase : (statement : Stmt) → statement.erase.depth counted = statement.depth counted
  | .assign target value span => by rw [erase, depth, depth, value.depth_erase]
  | .display value => by rw [erase, depth, depth, value.depth_erase]
  | .block body span => by rw [erase, depth, depth, depthAll_eraseAll body]

theorem depthAll_eraseAll :
    (statements : List Stmt) → depthAll counted (eraseAll statements) = depthAll counted statements
  | [] => by rw [eraseAll]
  | statement :: later => by
    rw [eraseAll, depthAll, depthAll, depth_erase statement, depthAll_eraseAll later]

end

end Stmt

/-! ### Descents of two sorts -/

section Sorts

variable (h : ∀ descent, a.count descent ≤ b.count descent + c.count descent)

include h

theorem UnitExpr.depth_le_add (unit : UnitExpr) :
    unit.depth a ≤ unit.depth b + unit.depth c := by
  induction unit with
  | symbol name span => exact Nat.zero_le _
  | number value span => exact Nat.zero_le _
  | binary op left right span ihleft ihright =>
    simp only [depth]
    omega
  | group inner span ih =>
    have hgroup := h .group
    simp only [depth]
    omega

theorem BinaryOp.depth_le_add (op : BinaryOp) : op.depth a ≤ op.depth b + op.depth c := by
  unfold depth
  split
  · exact h .exponent
  · exact Nat.zero_le _

theorem Expr.depth_le_add (e : Expr) : e.depth a ≤ e.depth b + e.depth c := by
  induction e with
  | literal value span => exact Nat.zero_le _
  | identifier name span => exact Nat.zero_le _
  | negate operand span ih =>
    have hnegation := h .negation
    simp only [depth]
    omega
  | binary op left right span ihleft ihright =>
    have hop := op.depth_le_add h
    simp only [depth]
    omega
  | cast value unit span ih =>
    have hunit := unit.depth_le_add h
    simp only [depth]
    omega
  | paren inner span ih =>
    have hparen := h .paren
    simp only [depth]
    omega

end Sorts

namespace Stmt

mutual

theorem depth_le_add (h : ∀ descent, a.count descent ≤ b.count descent + c.count descent) :
    (statement : Stmt) → statement.depth a ≤ statement.depth b + statement.depth c
  | .assign target value span => by
    have hexpression := h .expression
    have hvalue := value.depth_le_add h
    simp only [depth]
    omega
  | .display value => by
    have hexpression := h .expression
    have hvalue := value.depth_le_add h
    simp only [depth]
    omega
  | .block body span => by
    have hblock := h .block
    have hbody := depthAll_le_add h body
    simp only [depth]
    omega

theorem depthAll_le_add (h : ∀ descent, a.count descent ≤ b.count descent + c.count descent) :
    (statements : List Stmt) →
      depthAll a statements ≤ depthAll b statements + depthAll c statements
  | [] => Nat.zero_le _
  | statement :: later => by
    have hfirst := depth_le_add h statement
    have hlater := depthAll_le_add h later
    simp only [depthAll]
    omega

end

end Stmt

end Depth

/-! ## Derived trees are shallow -/

/-- A unit has no descents that take a level, and less depth than tokens. -/
structure UnitExpr.Shallow (read : List Token.Kind) (unit : UnitExpr) : Prop where
  guarded : unit.depth Descent.guarded = 0
  recursive : unit.depth Descent.recursive < read.length

/-- An expression has at most `levels` descents that take a level, and less depth than
tokens. -/
structure Expr.Shallow (levels : Nat) (read : List Token.Kind) (e : Expr) : Prop where
  guarded : e.depth Descent.guarded ≤ levels
  recursive : e.depth Descent.recursive < read.length

namespace Grammar

section Units

variable {Inner : List Token.Kind → UnitExpr → Prop} {read : List Token.Kind} {unit : UnitExpr}
  (hinner : ∀ read unit, Inner read unit → unit.Shallow read)

include hinner

theorem UnitAtom.shallow (h : UnitAtom Inner read unit) : unit.Shallow read := by
  cases h with
  | symbol name => exact ⟨rfl, Nat.one_pos⟩
  | integer n => exact ⟨rfl, Nat.one_pos⟩
  | real x => exact ⟨rfl, Nat.one_pos⟩
  | group hunit =>
    obtain ⟨hguarded, hrecursive⟩ := hinner _ _ hunit
    have hfree : Descent.guarded.count .group = 0 := rfl
    have hone := Descent.count_recursive_le_one .group
    constructor
    · rw [UnitExpr.depth, hguarded, hfree]
    · simp only [UnitExpr.depth, List.length_cons, List.length_append]
      omega

theorem UnitExponent.shallow (h : UnitExponent Inner read unit) : unit.Shallow read := by
  cases h with
  | atom hatom => exact hatom.shallow hinner
  | negInteger n => exact ⟨rfl, Nat.two_pos⟩
  | negReal x => exact ⟨rfl, Nat.two_pos⟩

omit hinner in
theorem shallow_unitBinary {read' : List Token.Kind} {left right : UnitExpr} {sign : Token.Kind}
    (hleft : left.Shallow read) (hright : right.Shallow read') (op : UnitOp) :
    (UnitExpr.binary op left right .nowhere).Shallow (read ++ sign :: read') := by
  have hfewer := hleft.recursive
  have hfewer' := hright.recursive
  constructor
  · rw [UnitExpr.depth, hleft.guarded, hright.guarded, Nat.max_self]
  · simp only [UnitExpr.depth, List.length_cons, List.length_append]
    omega

theorem UnitFactor.shallow {bare : Bool} (h : UnitFactor Inner bare read unit) :
    unit.Shallow read := by
  cases h with
  | atom hatom => exact hatom.shallow hinner
  | power hbase hexponent =>
    exact shallow_unitBinary (hbase.shallow hinner) (hexponent.shallow hinner) .pow

end Units

theorem UnitNested.shallow {depth : Nat} {read : List Token.Kind} {unit : UnitExpr}
    (h : UnitNested depth read unit) : unit.Shallow read := by
  induction depth generalizing read unit with
  | zero => exact h.elim
  | succ depth ih =>
    induction h with
    | operand hfactor =>
      obtain ⟨bare, hfactor⟩ := hfactor
      exact hfactor.shallow fun _ _ => ih
    | join _ _ hfactor ihleft =>
      obtain ⟨bare, hfactor⟩ := hfactor
      exact shallow_unitBinary ihleft (hfactor.shallow fun _ _ => ih) _

theorem shallow_cast {levels : Nat} {read read' back : List Token.Kind} {e : Expr} {unit : UnitExpr}
    (he : e.Shallow levels read) (hunit : unit.Shallow read') (hback : read'.length ≤ back.length) :
    (Expr.cast e unit .nowhere).Shallow levels (read ++ back) := by
  have hfewer := he.recursive
  have hfewer' := hunit.recursive
  constructor
  · rw [Expr.depth, hunit.guarded, Nat.max_zero]
    exact he.guarded
  · simp only [Expr.depth, List.length_append]
    omega

section Values

variable {Nested : List Token.Kind → Expr → Prop} {levels : Nat} {read : List Token.Kind}
  {e : Expr} {bare : Bool}
  (hnested : ∀ read e, Nested read e → e.depth Descent.guarded < levels ∧
    e.depth Descent.recursive < read.length)

include hnested

theorem Primary.shallow (h : Primary Nested bare read e) : e.Shallow levels read := by
  cases h with
  | @number k value _ _ _ hk hmeasured =>
    have hnumber : (Expr.literal value .nowhere).Shallow levels [k] :=
      ⟨Nat.zero_le _, Nat.one_pos⟩
    cases hmeasured with
    | plain => exact hnumber
    | unit _ hfactor =>
      exact shallow_cast hnumber (hfactor.shallow fun _ _ => UnitNested.shallow) (Nat.le_refl _)
  | constant hk => exact ⟨Nat.zero_le _, Nat.one_pos⟩
  | identifier name => exact ⟨Nat.zero_le _, Nat.one_pos⟩
  | paren hbefore hinner hafter =>
    obtain ⟨hguarded, hrecursive⟩ := hnested _ _ hinner
    have htaken : Descent.guarded.count .paren = 1 := rfl
    have hone := Descent.count_recursive_le_one .paren
    constructor
    · simp only [Expr.depth, htaken]
      omega
    · simp only [Expr.depth, List.length_cons, List.length_append]
      omega

theorem Operand.shallow (h : Operand Nested bare read e) : e.Shallow levels read := by
  induction h with
  | primary hvalue => exact hvalue.shallow hnested
  | cast _ hunit ih =>
    obtain ⟨depth, hunit⟩ := hunit
    exact shallow_cast ih hunit.shallow (by simp; omega)

omit hnested in
theorem shallow_binary {read' : List Token.Kind} {left right : Expr} {sign : Token.Kind}
    (hleft : left.Shallow levels read) (hright : right.Shallow levels read') (op : BinaryOp) :
    (Expr.binary op left right .nowhere).Shallow levels (read ++ sign :: read') := by
  obtain ⟨hguarded, hrecursive⟩ := hleft
  obtain ⟨hguarded', hrecursive'⟩ := hright
  have hfree : op.depth Descent.guarded = 0 := ite_self 0
  have hone : op.depth Descent.recursive ≤ 1 := by
    unfold BinaryOp.depth
    split <;> decide
  constructor
  · simp only [Expr.depth, hfree]
    omega
  · simp only [Expr.depth, List.length_cons, List.length_append]
    omega

theorem Unary.shallow (h : Unary Nested read e) : e.Shallow levels read := by
  induction h with
  | negate _ ih =>
    obtain ⟨hguarded, hrecursive⟩ := ih
    have hfree : Descent.guarded.count .negation = 0 := rfl
    have hone := Descent.count_recursive_le_one .negation
    constructor
    · simp only [Expr.depth, hfree]
      omega
    · simp only [Expr.depth, List.length_cons]
      omega
  | operand hvalue => exact hvalue.shallow hnested
  | power hbase _ ih => exact shallow_binary (hbase.shallow hnested) ih _

omit hnested in
theorem Chain.shallow {signs : List (Token.Kind × BinaryOp)}
    {Operand : List Token.Kind → Expr → Prop}
    (hoperand : ∀ read e, Operand read e → e.Shallow levels read)
    (h : Chain signs Operand joined read e) : e.Shallow levels read := by
  induction h with
  | operand hvalue => exact hoperand _ _ hvalue
  | join _ _ hright ih => exact shallow_binary ih (hoperand _ _ hright) _

theorem Comparison.shallow (h : Comparison Nested read e) : e.Shallow levels read :=
  Chain.shallow (fun _ _ => Chain.shallow fun _ _ => Chain.shallow fun _ _ =>
    Unary.shallow hnested) h

end Values

/-- An expression takes one level itself. -/
theorem Expression.shallow {levels : Nat} {read : List Token.Kind} {e : Expr}
    (h : Expression levels read e) :
    e.depth Descent.guarded < levels ∧ e.depth Descent.recursive < read.length := by
  induction levels generalizing read e with
  | zero => exact h.elim
  | succ levels ih =>
    obtain ⟨hguarded, hrecursive⟩ := Comparison.shallow (fun _ _ => ih) h
    exact ⟨Nat.lt_succ_of_le hguarded, hrecursive⟩

end Grammar

/-! ## What is read is shallow -/

/-- A statement has at most `levels` descents that take a level, and at most as much
depth as there are tokens. -/
structure Stmt.Shallow (levels tokens : Nat) (statement : Stmt) : Prop where
  guarded : statement.depth Descent.guarded ≤ levels
  recursive : statement.depth Descent.recursive ≤ tokens

theorem Stmt.Shallow.mono {levels tokens tokens' : Nat} {statement : Stmt}
    (h : statement.Shallow levels tokens) (hle : tokens ≤ tokens') :
    statement.Shallow levels tokens' :=
  ⟨h.guarded, Nat.le_trans h.recursive hle⟩

namespace Parse

theorem shallow_expression (fuel levels : Nat) (s : TokenStream) :
    Ends (fun e _ => e.depth Descent.guarded < levels ∧ e.depth Descent.recursive < s.rest.length)
      Complaint.IsError (expression fuel levels s) := by
  refine (sound_expression fuel levels s).mono fun e s' hderived => ?_
  obtain ⟨read, hread, hderived⟩ := hderived
  have hlength := congrArg List.length hread
  rw [TokenStream.kinds, List.length_map, List.length_append] at hlength
  obtain ⟨hguarded, hrecursive⟩ := hderived.shallow
  rw [Expr.depth_erase] at hguarded hrecursive
  exact ⟨hguarded, by omega⟩

theorem shallow_simpleStatement (fuel levels : Nat) (s : TokenStream) :
    Ends (fun statement _ => statement.Shallow levels s.rest.length) Complaint.IsError
      (simpleStatement fuel levels s) := by
  have hone : Descent.guarded.count .expression = 1 := rfl
  have hfree : Descent.recursive.count .expression = 0 := rfl
  unfold simpleStatement
  split
  · refine (shallow_expression fuel levels s.advance.advance).bind fun value s' hvalue => ?_
    have hle := (s.leads_advance.trans s.advance.leads_advance).length_le
    constructor
    · rw [Stmt.depth, hone]
      omega
    · rw [Stmt.depth, hfree]
      omega
  · refine (shallow_expression fuel levels s).bind fun value s' hvalue => ?_
    rw [peek_bind]
    split
    · rfl
    · constructor
      · rw [Stmt.depth, hone]
        omega
      · rw [Stmt.depth, hfree]
        omega

end Parse

namespace Reading

variable (source : Source)

section Bodies

variable {body : (levels : Nat) → Reading → List Stmt × Reading}
  (hbody : ∀ levels (inner : Reading), ∀ statement ∈ (body levels inner).1,
    statement.Shallow levels inner.stream.rest.length)

include hbody

/-- A block takes one level and one token more than its statements. -/
theorem shallow_block (levels : Nat) (reading : Reading)
    (hopen : reading.stream.kind = .leftBrace) :
    ∀ statement ∈ (reading.block source body levels).1,
      statement.Shallow levels reading.stream.rest.length := by
  cases levels with
  | zero => rintro _ ⟨⟩
  | succ levels =>
    have hinner := hbody levels (reading.move .advance)
    have hshorter : (reading.move .advance).stream.rest.length < reading.stream.rest.length :=
      TokenStream.length_advance_lt (by simp [hopen])
    simp only [block]
    split
    · rintro statement ⟨⟩
      have hguarded := Stmt.depthAll_le_iff.2 fun inner hmem => (hinner inner hmem).guarded
      have hrecursive := Stmt.depthAll_le_iff.2 fun inner hmem => (hinner inner hmem).recursive
      have htaken : Descent.guarded.count .block = 1 := rfl
      have hone := Descent.count_recursive_le_one .block
      constructor
      · rw [Stmt.depth, htaken]
        omega
      · rw [Stmt.depth]
        omega
    · rintro _ ⟨⟩

theorem shallow_statement (fuel levels : Nat) (reading : Reading) :
    ∀ statement ∈ (reading.statement source fuel body levels).1,
      statement.Shallow levels reading.stream.rest.length := by
  unfold statement
  split
  · next hopen => exact shallow_block source hbody levels reading hopen
  · have hread := Parse.shallow_simpleStatement fuel levels reading.stream
    unfold attempt
    cases hresult : Parse.simpleStatement fuel levels reading.stream with
    | ok statement stream =>
      rw [hresult] at hread
      rintro _ ⟨⟩
      exact hread
    | error complaint stream => rintro _ ⟨⟩

theorem shallow_turn (fuel levels : Nat) (reading : Reading) :
    ∀ statement ∈ (reading.turn source fuel body levels).1,
      statement.Shallow levels reading.stream.rest.length := by
  have hstatement := shallow_statement source hbody fuel levels reading
  unfold turn
  split
  · rintro _ ⟨⟩
  · generalize reading.statement source fuel body levels = result at hstatement
    obtain ⟨_ | statement, after⟩ := result
    · rintro _ ⟨⟩
    · exact hstatement

end Bodies

/-- Statements that are found are shallow, also where something is skipped between
them. -/
theorem shallow_statements (fuel : Nat) (inBlock : Bool) (levels : Nat) (reading : Reading) :
    ∀ statement ∈ (statements source fuel inBlock levels reading).1,
      statement.Shallow levels reading.stream.rest.length := by
  induction fuel generalizing inBlock levels reading with
  | zero => rintro _ ⟨⟩
  | succ fuel ih =>
    have hskip : (reading.move .skipNewlines).stream.rest.length ≤ reading.stream.rest.length :=
      reading.stream.leads_skipNewlines.length_le
    rw [statements_succ]
    generalize reading.move .skipNewlines = here at hskip
    by_cases hstop : here.stops inBlock = true
    · simp only [if_pos hstop]
      rintro _ ⟨⟩
    · have hturn := shallow_turn source (ih true) (fuel + 1) levels here
      have hnext : here.stream.Leads
          (here.turn source (fuel + 1) (statements source fuel true) levels).2.stream :=
        leads_turn (leads_statements source fuel true)
      simp only [if_neg hstop]
      generalize here.turn source (fuel + 1) (statements source fuel true) levels = next
        at hturn hnext
      have hle := hnext.length_le
      have hlater := ih inBlock levels next.2
      intro statement hmem
      rcases List.mem_append.1 hmem with hfound | hfound
      · exact (hturn statement (Option.mem_toList.1 hfound)).mono hskip
      · exact (hlater statement hfound).mono (by omega)

end Reading

/-! ## What takes no level -/

namespace Grammar

section Factors

variable {Nested : List Token.Kind → Expr → Prop} (n : Nat)

theorem exists_negations : ∃ read e, Unary Nested read e ∧ e.depth [.negation] = n := by
  induction n with
  | zero => exact ⟨_, _, .operand (.primary (.identifier "x")), rfl⟩
  | succ n ih =>
    obtain ⟨read, e, hderived, hdepth⟩ := ih
    refine ⟨_, _, .negate hderived, ?_⟩
    rw [Expr.depth, hdepth, Nat.add_comm]
    rfl

theorem exists_exponents : ∃ read e, Unary Nested read e ∧ e.depth [.exponent] = n := by
  induction n with
  | zero => exact ⟨_, _, .operand (.primary (.identifier "x")), rfl⟩
  | succ n ih =>
    obtain ⟨read, e, hderived, hdepth⟩ := ih
    refine ⟨_, _, .power (.primary (.identifier "x")) hderived, ?_⟩
    rw [Expr.depth, Expr.depth, hdepth, Nat.zero_max, Nat.add_comm]
    rfl

theorem exists_groups : ∃ read e, Unary Nested read e ∧ e.depth [.group] = n := by
  have hunit : ∃ read unit, UnitNested (n + 1) read unit ∧ unit.depth [.group] = n := by
    induction n with
    | zero => exact ⟨_, _, .operand ⟨true, .atom (.symbol "m")⟩, rfl⟩
    | succ n ih =>
      obtain ⟨read, unit, hderived, hdepth⟩ := ih
      refine ⟨_, _, .operand ⟨true, .atom (.group hderived)⟩, ?_⟩
      rw [UnitExpr.depth, hdepth, Nat.add_comm]
      rfl
  obtain ⟨read, unit, hderived, hdepth⟩ := hunit
  refine ⟨_, _, .operand (.cast (.primary (.identifier "x")) ⟨_, hderived⟩), ?_⟩
  rw [Expr.depth, Expr.depth, hdepth, Nat.zero_max]

end Factors

/-- What takes no level nests as deep as one likes. -/
theorem exists_script {descent : Descent} (h : descent ∈ Descent.unguarded) (n : Nat) :
    ∃ read e, Script read [.display e] ∧ (∀ k ∈ read, k ≠ .endOfFile) ∧
      (Stmt.display e).depth [descent] = n := by
  have hfactor : ∃ read e, Unary (Expression (maxNesting - 1)) read e ∧
      e.depth [descent] = n ∧ [descent].count .expression = 0 := by
    simp only [Descent.unguarded, List.mem_cons, List.not_mem_nil, or_false] at h
    rcases h with rfl | rfl | rfl
    · obtain ⟨read, e, hderived, hdepth⟩ := exists_negations n
      exact ⟨read, e, hderived, hdepth, rfl⟩
    · obtain ⟨read, e, hderived, hdepth⟩ := exists_exponents n
      exact ⟨read, e, hderived, hdepth, rfl⟩
    · obtain ⟨read, e, hderived, hdepth⟩ := exists_groups n
      exact ⟨read, e, hderived, hdepth, rfl⟩
  obtain ⟨read, e, hderived, hdepth, hfree⟩ := hfactor
  refine ⟨read, e, .last (.display (.operand (.operand (.operand hderived)))), ?_, ?_⟩
  · rintro k hk rfl
    exact (hderived.proper fun _ _ => Expression.proper).within .endOfFile hk
  · rw [Stmt.depth, hdepth, hfree, Nat.zero_add]

end Grammar

/-! ## The result -/

namespace Program

/-- Every program that is read is shallow. -/
theorem depth_parse {source : Source} {tokens : List Token} {program : Program}
    (h : (parse source tokens).program = some program) :
    program.depth Descent.guarded ≤ maxNesting ∧
      program.depth Descent.recursive ≤ tokens.length := by
  let stream := (TokenStream.ofTokens tokens).skipNewlines
  have hlength : stream.rest.length ≤ tokens.length :=
    Nat.le_trans (TokenStream.leads_skipNewlines _).length_le (List.takeWhile_sublist _).length_le
  have hshallow := Reading.shallow_statements source (stream.rest.length + 1) false maxNesting
    ⟨stream, ∅⟩
  unfold parse at h
  simp only at h
  split at h
  · cases h
  · cases h
    refine ⟨Stmt.depthAll_le_iff.2 fun statement hmem => ?_,
      Stmt.depthAll_le_iff.2 fun statement hmem => ?_⟩
    · exact (hshallow statement hmem).guarded
    · exact Nat.le_trans (hshallow statement hmem).recursive hlength

/-- The budget bounds blocks and values in parentheses, together with the expression of
the statement.  It does not bound minus signs, operands behind `^` and units in
parentheses: what the reader descends into exceeds the budget by at most these, and
each of them nests as deep as one likes in programs without errors.  Only the number of
tokens bounds them all. -/
theorem parse_depth_unguarded (source : Source) :
    (∀ tokens program, (parse source tokens).program = some program →
      program.depth Descent.guarded ≤ maxNesting ∧
      program.depth Descent.recursive ≤ maxNesting + program.depth Descent.unguarded ∧
      program.depth Descent.recursive ≤ tokens.length) ∧
    ∀ descent ∈ Descent.unguarded, ∀ n, ∃ tokens program,
      (parse source tokens).log.totalErrors = 0 ∧
      (parse source tokens).program = some program ∧ program.depth [descent] = n := by
  constructor
  · intro tokens program h
    obtain ⟨hguarded, hrecursive⟩ := depth_parse h
    have hsplit := Stmt.depthAll_le_add Descent.count_recursive_le program.statements
    exact ⟨hguarded, Nat.le_trans hsplit (Nat.add_le_add_right hguarded _), hrecursive⟩
  · intro descent hdescent n
    obtain ⟨read, e, hderived, hfile, hdepth⟩ := Grammar.exists_script hdescent n
    let body : List Token := read.map (⟨·, .nowhere⟩)
    let final : Token := ⟨.endOfFile, .nowhere⟩
    have hkinds : body.map (·.kind) = read := by simp [body, Function.comp_def]
    have hbody : ∀ token ∈ body, token.kind ≠ .endOfFile := by
      intro token htoken
      obtain ⟨k, hk, rfl⟩ := List.mem_map.1 htoken
      exact hfile k hk
    have hfinal : final.kind = .endOfFile := rfl
    obtain ⟨hclean, program, hprogram, hstatements⟩ :=
      parse_of_derived source hbody hfinal (hkinds ▸ hderived)
    refine ⟨body ++ [final], program, hclean, hprogram, ?_⟩
    rw [Program.depth, ← Stmt.depthAll_eraseAll, hstatements, Stmt.depthAll, hdepth]
    exact Nat.max_zero n

/-- Two signs and a unit in two parentheses: more descents than levels taken.  A
thousand parentheses around a unit are read without a complaint. -/
theorem parse_depth_unguarded_thousand :
    let source : Source := ⟨"s", "--(x[((m))])"⟩
    (∃ program, (parse source source.lex.tokens).program = some program ∧
      program.depth Descent.guarded = 2 ∧ program.depth Descent.recursive = 5 ∧
      program.depth Descent.recursive ≤ maxNesting + program.depth Descent.unguarded) ∧
    ∃ tokens program, (parse source tokens).log.totalErrors = 0 ∧
      (parse source tokens).program = some program ∧ program.depth [.group] = 1000 := by
  intro source
  obtain ⟨hbound, hdeep⟩ := parse_depth_unguarded source
  refine ⟨?_, hdeep .group (by decide) 1000⟩
  have hdepths : ((parse source source.lex.tokens).program.map fun program =>
      (program.depth Descent.guarded, program.depth Descent.recursive)) = some (2, 5) := by
    decide +kernel
  obtain ⟨program, hprogram, hdepth⟩ := Option.map_eq_some_iff.1 hdepths
  obtain ⟨hguarded, hrecursive⟩ := Prod.mk.inj hdepth
  exact ⟨program, hprogram, hguarded, hrecursive, (hbound _ program hprogram).2.1⟩

/-- Sixty-five signs in front of a name and sixty-five parentheses around a unit are read
without a complaint. -/
theorem deep_trees_unreported :
    maxNesting < 65 ∧
    ∀ text ∈ [List.replicate 65 '-' ++ ['x'],
        ['x', '['] ++ List.replicate 65 '(' ++ ['m'] ++ List.replicate 65 ')' ++ [']']],
      let source : Source := ⟨"test.metra", String.ofList text⟩
      let parsed := parse source source.lex.tokens
      parsed.log.totalErrors = 0 ∧
        parsed.program.map (·.depth Descent.recursive) = some 65 := by
  decide +kernel

end Program

end UnitScript
