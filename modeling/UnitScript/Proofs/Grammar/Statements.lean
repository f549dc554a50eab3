import UnitScript.Program.Parser
import UnitScript.Proofs.Diagnostics
import UnitScript.Proofs.Grammar.Values

/-!
# The grammar of statements

```text
program    = statements
statements = { newline } [ statement { newline { newline } statement } ] { newline }
statement  = block | identifier "=" expression | expression
block      = "{" statements "}"
```

The productions as relations between the kinds of tokens and the tree without
its spans, and the proof that what the parser reads without an error is derived
by them.  Everything else is complained about.

* `Statement` and `Statements` are the productions.  `StatementIn` closes them
  over the budget of nesting levels that blocks and expressions share, and
  `Script` is the grammar of whole programs.
* `extends_statements` says that complaints are not taken back.  With it,
  reading without errors took no branch that complains.
* `statements_of_close`, `statements_of_brace` and `statements_of_statement`
  are what reading does, by the token it finds.
* `sound_statements` is the result.
-/

namespace UnitScript

namespace Stmt

mutual

/-- The statement without its spans. -/
def erase : Stmt → Stmt
  | .assign target value _ => .assign ⟨target.text, .nowhere⟩ value.erase .nowhere
  | .display value => .display value.erase
  | .block body _ => .block (eraseAll body) .nowhere

/-- The statements without their spans. -/
def eraseAll : List Stmt → List Stmt
  | [] => []
  | statement :: later => statement.erase :: eraseAll later

end

end Stmt

namespace Grammar

/-- `block | identifier "=" expression | expression` -/
inductive Statement (Expression : List Token.Kind → Expr → Prop)
    (Body : List Token.Kind → List Stmt → Prop) : List Token.Kind → Stmt → Prop
  | assign {read value} (name : String) : Expression read value →
      Statement Expression Body (.identifier name :: .assign :: read)
        (.assign ⟨name, .nowhere⟩ value .nowhere)
  | display {read value} : Expression read value → Statement Expression Body read (.display value)
  | block {read body} : Body read body →
      Statement Expression Body (.leftBrace :: (read ++ [.rightBrace])) (.block body .nowhere)

/-- Statements with newlines between them, and any newlines around them. -/
inductive Statements (Statement : List Token.Kind → Stmt → Prop) :
    List Token.Kind → List Stmt → Prop
  | nil : Statements Statement [] []
  | newline {read statements} : Statements Statement read statements →
      Statements Statement (.newline :: read) statements
  | last {read statement} : Statement read statement → Statements Statement read [statement]
  | cons {read read' statement later} : Statement read statement →
      Statements Statement read' later →
      Statements Statement (read ++ .newline :: read') (statement :: later)

/-- A statement with a budget of nesting levels.  A block takes one, and so
does an expression. -/
def StatementIn : (levels : Nat) → List Token.Kind → Stmt → Prop
  | 0 => fun _ _ => False
  | levels + 1 => Statement (Expression (levels + 1)) (Statements (StatementIn levels))

/-- A whole program. -/
def Script : List Token.Kind → List Stmt → Prop := Statements (StatementIn maxNesting)

variable {S : List Token.Kind → Stmt → Prop} {read : List Token.Kind}

/-- Newlines in front of statements do not matter. -/
theorem Statements.newlines_append {skipped : List Token.Kind} {statements : List Stmt}
    (hskipped : Newlines skipped) (h : Statements S read statements) :
    Statements S (skipped ++ read) statements := by
  induction skipped with
  | nil => exact h
  | cons k more ih =>
    obtain ⟨rfl, hmore⟩ := List.forall_mem_cons.1 hskipped
    exact .newline (ih hmore)

/-- A statement starts with a token that neither ends nor separates
statements. -/
theorem StatementIn.starts {levels : Nat} {statement : Stmt} (h : StatementIn levels read statement) :
    ∃ k more, read = k :: more ∧ k ≠ .newline ∧ k ≠ .rightBrace ∧ k ≠ .endOfFile := by
  cases levels with
  | zero => exact h.elim
  | succ levels =>
    cases h with
    | assign name _ => exact ⟨_, _, rfl, nofun, nofun, nofun⟩
    | display hvalue =>
      obtain ⟨k, more, rfl, hk⟩ := hvalue.proper.starts
      have hwithin := hvalue.proper.within k List.mem_cons_self
      refine ⟨k, more, rfl, hk, ?_, ?_⟩
      · rintro rfl
        exact hwithin
      · rintro rfl
        exact hwithin
    | block _ => exact ⟨_, _, rfl, nofun, nofun, nofun⟩

theorem Statements.dropWhile {levels : Nat} {statements : List Stmt}
    (h : Statements (StatementIn levels) read statements) :
    Statements (StatementIn levels) (read.dropWhile (· == .newline)) statements := by
  induction h with
  | nil => exact .nil
  | newline _ ih =>
    rw [List.dropWhile_cons_of_pos rfl]
    exact ih
  | last hstatement =>
    obtain ⟨k, more, rfl, hk, _⟩ := hstatement.starts
    rw [List.dropWhile_cons_of_neg (by simpa using hk)]
    exact .last hstatement
  | cons hstatement hlater _ =>
    obtain ⟨k, more, rfl, hk, _⟩ := hstatement.starts
    rw [List.cons_append, List.dropWhile_cons_of_neg (by simpa using hk)]
    exact .cons hstatement hlater

end Grammar

open Grammar

/-! ## Complaints -/

namespace Reading

variable (source : Source)

/-- An error is counted. -/
theorem totalErrors_complain_ne_zero (log : Diagnostics) {complaint : Complaint}
    (h : complaint.IsError) : (log.complain source complaint).totalErrors ≠ 0 := by
  have hseverity : (source.diagnose complaint.problem.issue complaint.span).severity = .error := h
  unfold Diagnostics.complain Diagnostics.report Diagnostics.push
  rw [hseverity]
  exact Nat.succ_ne_zero _

theorem extends_complain (reading : Reading) (problem : Problem) (span : Span) :
    Diagnostics.Extends source reading.log (reading.complain source problem span).log :=
  .complain reading.log ⟨problem, span⟩

theorem extends_attempt {α : Type} (reading : Reading) (parse : Parse α) :
    Diagnostics.Extends source reading.log (reading.attempt source parse).2.log := by
  unfold attempt
  split
  · exact .refl _ _
  · exact .complain _ _

theorem extends_endStatement (reading : Reading) :
    Diagnostics.Extends source reading.log (reading.endStatement source).log := by
  unfold endStatement
  split
  · exact .refl _ _
  · exact .refl _ _
  · exact .refl _ _
  · exact extends_complain source reading (.expectedStatementEnd _) reading.stream.span

theorem extends_block {body : (levels : Nat) → Reading → List Stmt × Reading}
    (hbody : ∀ levels reading,
      Diagnostics.Extends source reading.log (body levels reading).2.log)
    (levels : Nat) (reading : Reading) :
    Diagnostics.Extends source reading.log (reading.block source body levels).2.log := by
  cases levels with
  | zero => exact extends_complain source (reading.move .advance) .deepBlock reading.stream.span
  | succ levels =>
    have hread := hbody levels (reading.move .advance)
    simp only [block]
    split
    · exact hread
    · exact hread.trans (extends_complain source _ _ _)

theorem extends_statement {body : (levels : Nat) → Reading → List Stmt × Reading}
    (hbody : ∀ levels reading,
      Diagnostics.Extends source reading.log (body levels reading).2.log)
    (fuel levels : Nat) (reading : Reading) :
    Diagnostics.Extends source reading.log (reading.statement source fuel body levels).2.log := by
  unfold statement
  split
  · exact extends_block source hbody levels reading
  · exact extends_attempt source reading _

/-- Reading adds complaints and takes none back. -/
theorem extends_statements (fuel : Nat) (inBlock : Bool) (levels : Nat) (reading : Reading) :
    Diagnostics.Extends source reading.log
      (statements source fuel inBlock levels reading).2.log := by
  induction fuel generalizing inBlock levels reading with
  | zero => exact .refl _ _
  | succ fuel ih =>
    unfold statements
    simp only
    generalize hskipped : reading.move .skipNewlines = skipped
    have hlog : reading.log = skipped.log := by rw [← hskipped]; rfl
    rw [hlog]
    split
    · exact .refl _ _
    · split
      · have hcomplained :=
          extends_complain source skipped .unmatchedBrace skipped.stream.span
        exact hcomplained.trans (ih inBlock levels
          ((skipped.complain source .unmatchedBrace skipped.stream.span).move .advance))
      · have hstatement := extends_statement source (ih true) (fuel + 1) levels skipped
        cases hresult : skipped.statement source (fuel + 1) (statements source fuel true) levels with
        | mk read after =>
          rw [hresult] at hstatement
          cases read with
          | some statement =>
            exact hstatement.trans ((extends_endStatement source after).trans
              (ih inBlock levels (after.endStatement source)))
          | none => exact hstatement.trans (ih inBlock levels (after.move .synchronize))

theorem totalErrors_le_endStatement (reading : Reading) :
    reading.log.totalErrors ≤ (reading.endStatement source).log.totalErrors :=
  (extends_endStatement source reading).totalErrors_le

theorem totalErrors_le_statements (fuel : Nat) (inBlock : Bool) (levels : Nat)
    (reading : Reading) :
    reading.log.totalErrors ≤
      (statements source fuel inBlock levels reading).2.log.totalErrors :=
  (extends_statements source fuel inBlock levels reading).totalErrors_le

end Reading

/-! ## Where statements end -/

/-- Statements end before this token: at the end of the file and, inside a
block, at its closing brace. -/
def AtClose (inBlock : Bool) (next : Token.Kind) : Prop :=
  next = .endOfFile ∨ inBlock = true ∧ next = .rightBrace

namespace Reading

variable {source : Source} {inBlock : Bool} {levels : Nat} {reading : Reading}

theorem statements_of_close (fuel : Nat)
    (hclose : AtClose inBlock reading.stream.skipNewlines.kind) :
    statements source (fuel + 1) inBlock levels reading = ([], reading.move .skipNewlines) := by
  unfold statements
  simp only
  rw [if_pos]
  rcases hclose with hend | ⟨hblock, hbrace⟩
  · simp [TokenStream.atEnd, move, hend]
  · simp [move, hblock, hbrace]

private theorem not_atClose (hclean : reading.log.totalErrors = 0)
    (hclose : ¬ AtClose inBlock reading.stream.skipNewlines.kind) :
    ¬ ((reading.move .skipNewlines).stream.atEnd ||
      (inBlock && (reading.move .skipNewlines).stream.kind == .rightBrace) ||
      (reading.move .skipNewlines).log.atErrorLimit) = true := by
  have hend : reading.stream.skipNewlines.kind ≠ .endOfFile := fun h => hclose (.inl h)
  have hbrace : inBlock = true → reading.stream.skipNewlines.kind ≠ .rightBrace :=
    fun hblock h => hclose (.inr ⟨hblock, h⟩)
  simp only [TokenStream.atEnd, move, Diagnostics.atErrorLimit, hclean, Diagnostics.limit]
  cases inBlock with
  | false => simpa using hend
  | true => simpa using ⟨hend, hbrace rfl⟩

/-- A closing brace that closes nothing is complained about. -/
theorem statements_of_brace (fuel : Nat) (hclean : reading.log.totalErrors = 0)
    (hclose : ¬ AtClose inBlock reading.stream.skipNewlines.kind)
    (hbrace : reading.stream.skipNewlines.kind = .rightBrace) :
    (statements source (fuel + 1) inBlock levels reading).2.log.totalErrors ≠ 0 := by
  unfold statements
  simp only
  rw [if_neg (not_atClose hclean hclose),
    if_pos (show (reading.move .skipNewlines).stream.kind = .rightBrace from hbrace)]
  have hcomplained : (reading.log.complain source
      ⟨.unmatchedBrace, reading.stream.skipNewlines.span⟩).totalErrors ≠ 0 :=
    totalErrors_complain_ne_zero source reading.log rfl
  have hle := totalErrors_le_statements source fuel inBlock levels
    (((reading.move .skipNewlines).complain source .unmatchedBrace
      reading.stream.skipNewlines.span).move .advance)
  exact Nat.ne_of_gt (Nat.lt_of_lt_of_le (Nat.pos_of_ne_zero hcomplained) hle)

/-- Anything else starts a statement. -/
theorem statements_of_statement (fuel : Nat) (hclean : reading.log.totalErrors = 0)
    (hclose : ¬ AtClose inBlock reading.stream.skipNewlines.kind)
    (hbrace : reading.stream.skipNewlines.kind ≠ .rightBrace) :
    statements source (fuel + 1) inBlock levels reading =
      match (reading.move .skipNewlines).statement source (fuel + 1) (statements source fuel true)
        levels with
      | (some statement, after) =>
          let later := statements source fuel inBlock levels (after.endStatement source)
          (statement :: later.1, later.2)
      | (none, after) => statements source fuel inBlock levels (after.move .synchronize) := by
  have hbrace' : ¬ (reading.move .skipNewlines).stream.kind = .rightBrace := hbrace
  conv => lhs; unfold statements
  exact (if_neg (not_atClose hclean hclose)).trans (if_neg hbrace')

/-- A statement that ends without a complaint ends at a newline, at the end of
the file or at a closing brace. -/
theorem endStatement_cases (h : (reading.endStatement source).log.totalErrors = 0) :
    reading.stream.kind = .newline ∧ reading.endStatement source = reading.move .skipNewlines ∨
      (reading.stream.kind = .endOfFile ∨ reading.stream.kind = .rightBrace) ∧
        reading.endStatement source = reading := by
  unfold endStatement at h ⊢
  cases hkind : reading.stream.kind with
  | newline => exact .inl ⟨rfl, rfl⟩
  | endOfFile => exact .inr ⟨.inl rfl, rfl⟩
  | rightBrace => exact .inr ⟨.inr rfl, rfl⟩
  | _ =>
    rw [hkind] at h
    exact absurd h (totalErrors_complain_ne_zero source reading.log rfl)

end Reading

/-! ## What is read is derived -/

/-- An assignment or a displayed expression that is read is derived. -/
theorem Parse.sound_simpleStatement (fuel levels : Nat) :
    Parse.Sound Stmt.erase (fun read _ statement => StatementIn levels read statement)
      (Parse.simpleStatement fuel levels) := by
  intro s
  unfold Parse.simpleStatement
  split
  · next name hkind hsecond =>
      have hassign : s.advance.kind = .assign := by rw [TokenStream.kind_advance, hsecond]
      refine (Parse.sound_expression fuel levels s.advance.advance).bind fun value s' hvalue => ?_
      obtain ⟨read, hread, hvalue⟩ := hvalue
      cases levels with
      | zero => exact hvalue.elim
      | succ levels =>
        refine ⟨.identifier name :: .assign :: read, ?_, .assign name hvalue⟩
        rw [TokenStream.kinds_of_kind hkind nofun, TokenStream.kinds_of_kind hassign nofun, hread]
        rfl
  · refine (Parse.sound_expression fuel levels s).bind fun value s' hvalue => ?_
    obtain ⟨read, hread, hvalue⟩ := hvalue
    rw [Parse.peek_bind]
    split
    · rfl
    · cases levels with
      | zero => exact hvalue.elim
      | succ levels => exact ⟨read, hread, .display hvalue⟩

namespace Reading

variable {source : Source} {levels : Nat} {reading after : Reading}

/-- Statements that are read without a complaint are derived, and what comes
next ends them, if fewer than `fuel` tokens are left. -/
def StatementsSound (source : Source) (fuel : Nat) : Prop :=
  ∀ inBlock levels (reading after : Reading) found, reading.stream.kinds.length < fuel →
    statements source fuel inBlock levels reading = (found, after) → after.log.totalErrors = 0 →
    ∃ read, reading.stream.kinds = read ++ after.stream.kinds ∧
      Statements (StatementIn levels) read (Stmt.eraseAll found) ∧
      AtClose inBlock after.stream.kind

/-- A block that is read without a complaint is derived. -/
theorem sound_block {fuel : Nat} (hbody : StatementsSound source fuel) {found : Option Stmt}
    (hopen : reading.stream.kind = .leftBrace) (hlength : reading.stream.kinds.length ≤ fuel)
    (h : reading.block source (statements source fuel true) levels = (found, after))
    (hclean : after.log.totalErrors = 0) :
    ∃ statement read, found = some statement ∧ reading.stream.kinds = read ++ after.stream.kinds ∧
      StatementIn levels read statement.erase := by
  have hkinds := TokenStream.kinds_of_kind hopen nofun
  cases levels with
  | zero =>
    cases h
    exact absurd hclean (totalErrors_complain_ne_zero source reading.log rfl)
  | succ levels =>
    simp only [block] at h
    cases hresult : statements source fuel true levels (reading.move .advance) with
    | mk body inner =>
      rw [hresult] at h
      simp only at h
      split at h
      · next hclose =>
          cases h
          have hshorter : (reading.move .advance).stream.kinds.length < fuel := by
            change reading.stream.advance.kinds.length < fuel
            rw [hkinds, List.length_cons] at hlength
            omega
          obtain ⟨read, hread, hstatements, _⟩ := hbody true levels _ _ _ hshorter hresult hclean
          refine ⟨_, .leftBrace :: (read ++ [.rightBrace]), rfl, ?_, ?_⟩
          · change reading.stream.kinds = _ ++ inner.stream.advance.kinds
            rw [hkinds, show reading.stream.advance.kinds = read ++ inner.stream.kinds from hread,
              TokenStream.kinds_of_kind hclose nofun]
            simp
          · rw [Stmt.erase]
            exact .block hstatements
      · cases h
        exact absurd hclean (totalErrors_complain_ne_zero source inner.log rfl)

/-- A statement that is read without a complaint is derived. -/
theorem sound_statement {fuel fuel' : Nat} (hbody : StatementsSound source fuel) {found : Option Stmt}
    (hlength : reading.stream.kinds.length ≤ fuel)
    (h : reading.statement source fuel' (statements source fuel true) levels = (found, after))
    (hclean : after.log.totalErrors = 0) :
    ∃ statement read, found = some statement ∧ reading.stream.kinds = read ++ after.stream.kinds ∧
      StatementIn levels read statement.erase := by
  unfold statement at h
  split at h
  · next hopen => exact sound_block hbody hopen hlength h hclean
  · have hsound := Parse.sound_simpleStatement fuel' levels reading.stream
    unfold attempt at h
    cases hresult : Parse.simpleStatement fuel' levels reading.stream with
    | ok statement stream =>
      rw [hresult] at h hsound
      cases h
      obtain ⟨read, hread, hstatement⟩ := hsound
      exact ⟨statement, read, rfl, hread, hstatement⟩
    | error complaint stream =>
      rw [hresult] at h hsound
      cases h
      exact absurd hclean (totalErrors_complain_ne_zero source reading.log hsound)

/-- What follows a statement that is read without a complaint separates it from
other statements, or ends them all. -/
theorem sound_later {fuel : Nat} (hstatements : StatementsSound source fuel) {inBlock : Bool}
    {later : List Stmt} (hlength : reading.stream.kinds.length < fuel)
    (h : statements source fuel inBlock levels (reading.endStatement source) = (later, after))
    (hclean : after.log.totalErrors = 0) :
    ∃ read, reading.stream.kinds = read ++ after.stream.kinds ∧
      (∀ front statement, StatementIn levels front statement →
        Statements (StatementIn levels) (front ++ read) (statement :: Stmt.eraseAll later)) ∧
      AtClose inBlock after.stream.kind := by
  have hended : (reading.endStatement source).log.totalErrors = 0 := by
    have hle := totalErrors_le_statements source fuel inBlock levels (reading.endStatement source)
    rw [h] at hle
    exact Nat.le_zero.1 (hclean ▸ hle)
  rcases endStatement_cases hended with ⟨hkind, heq⟩ | ⟨hkind, heq⟩
  · have hkinds := TokenStream.kinds_of_kind hkind nofun
    obtain ⟨newlines, hnewlines, hskipped⟩ := TokenStream.kinds_eq_newlines_append reading.stream.advance
    rw [TokenStream.skipNewlines_advance hkind] at hskipped
    rw [heq] at h
    have hshorter : (reading.move .skipNewlines).stream.kinds.length < fuel := by
      change reading.stream.skipNewlines.kinds.length < fuel
      rw [hkinds, hskipped] at hlength
      simp only [List.length_cons, List.length_append] at hlength
      omega
    obtain ⟨read, hread, hlater, hclose⟩ := hstatements inBlock levels _ _ _ hshorter h hclean
    refine ⟨.newline :: (newlines ++ read), ?_, ?_, hclose⟩
    · rw [hkinds, hskipped,
        show reading.stream.skipNewlines.kinds = read ++ after.stream.kinds from hread]
      simp
    · intro front statement hstatement
      exact .cons hstatement (hlater.newlines_append hnewlines)
  · rw [heq] at h hended
    obtain ⟨fuel, rfl⟩ : ∃ n, fuel = n + 1 := Nat.exists_eq_add_one_of_ne_zero (by omega)
    have hskip : reading.stream.skipNewlines = reading.stream := by
      apply TokenStream.skipNewlines_of_ne
      rcases hkind with hkind | hkind <;> rw [hkind] <;> exact nofun
    by_cases hclose : AtClose inBlock reading.stream.skipNewlines.kind
    · rw [statements_of_close fuel hclose] at h
      cases h
      refine ⟨[], ?_, ?_, hclose⟩
      · change reading.stream.kinds = [] ++ reading.stream.skipNewlines.kinds
        rw [hskip]
        rfl
      · intro front statement hstatement
        rw [List.append_nil]
        exact .last hstatement
    · have hbrace : reading.stream.skipNewlines.kind = .rightBrace := by
        rw [hskip] at hclose ⊢
        exact hkind.resolve_left fun hend => hclose (.inl hend)
      have hne : (statements source (fuel + 1) inBlock levels reading).2.log.totalErrors ≠ 0 :=
        statements_of_brace fuel hended hclose hbrace
      rw [h] at hne
      exact absurd hclean hne

theorem sound_statements (source : Source) (fuel : Nat) : StatementsSound source fuel := by
  induction fuel with
  | zero =>
    intro inBlock levels reading after found hlength
    exact absurd hlength (Nat.not_lt_zero _)
  | succ fuel ih =>
    intro inBlock levels reading after found hlength h hclean
    have hstart : reading.log.totalErrors = 0 := by
      have hle := totalErrors_le_statements source (fuel + 1) inBlock levels reading
      rw [h] at hle
      exact Nat.le_zero.1 (hclean ▸ hle)
    obtain ⟨newlines, hnewlines, hskipped⟩ := TokenStream.kinds_eq_newlines_append reading.stream
    by_cases hclose : AtClose inBlock reading.stream.skipNewlines.kind
    · rw [statements_of_close fuel hclose] at h
      cases h
      refine ⟨newlines, hskipped, ?_, hclose⟩
      have hnil : Statements (StatementIn levels) (newlines ++ []) [] := .newlines_append hnewlines .nil
      rwa [List.append_nil] at hnil
    by_cases hbrace : reading.stream.skipNewlines.kind = .rightBrace
    · have hne : (statements source (fuel + 1) inBlock levels reading).2.log.totalErrors ≠ 0 :=
        statements_of_brace fuel hstart hclose hbrace
      rw [h] at hne
      exact absurd hclean hne
    rw [statements_of_statement fuel hstart hclose hbrace] at h
    cases hresult : (reading.move .skipNewlines).statement source (fuel + 1)
        (statements source fuel true) levels with
    | mk result next =>
      rw [hresult] at h
      have hbound : reading.stream.skipNewlines.kinds.length ≤ fuel := by
        rw [hskipped, List.length_append] at hlength
        omega
      cases result with
      | none =>
        -- what cannot be read was complained about
        simp only at h
        have hle := totalErrors_le_statements source fuel inBlock levels (next.move .synchronize)
        rw [h] at hle
        have hnext : next.log.totalErrors = 0 := Nat.le_zero.1 (hclean ▸ hle)
        obtain ⟨_, _, hfound, _⟩ := sound_statement ih hbound hresult hnext
        cases hfound
      | some statement =>
        cases hlater : statements source fuel inBlock levels (next.endStatement source) with
        | mk later last =>
          simp only [hlater, Prod.mk.injEq] at h
          obtain ⟨rfl, rfl⟩ := h
          have hle := totalErrors_le_statements source fuel inBlock levels (next.endStatement source)
          rw [hlater] at hle
          have hnext : next.log.totalErrors = 0 :=
            Nat.le_zero.1 (hclean ▸ Nat.le_trans (totalErrors_le_endStatement source next) hle)
          obtain ⟨_, front, hfound, hfront, hstatement⟩ := sound_statement ih hbound hresult hnext
          cases hfound
          obtain ⟨k, more, rfl, _⟩ := hstatement.starts
          have hfront : reading.stream.skipNewlines.kinds = k :: more ++ next.stream.kinds := hfront
          have hshorter : next.stream.kinds.length < fuel := by
            rw [hfront] at hbound
            simp only [List.length_cons, List.length_append] at hbound
            omega
          obtain ⟨read, hread, hderived, hended⟩ := sound_later ih hshorter hlater hclean
          refine ⟨newlines ++ (k :: more ++ read), ?_, ?_, hended⟩
          · rw [hskipped, hfront, hread]
            simp
          · rw [Stmt.eraseAll]
            exact .newlines_append hnewlines (hderived _ _ hstatement)

end Reading

end UnitScript
