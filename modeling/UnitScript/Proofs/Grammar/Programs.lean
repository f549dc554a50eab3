import UnitScript.Proofs.Grammar.Statements

/-!
# Programs of the grammar are read

The other direction for statements, and both directions for whole programs.

* `Parse.complete_simpleStatement` and `complete_statement` show that what is
  derived is read without a complaint, one statement at a time.
* `complete_statements` is the result about lists of statements.  It goes by
  the budget of nesting levels and, within it, by the derivation.
* `parse_accepts_grammar` is the whole statement: the parser accepts exactly
  the programs of the grammar, and builds their trees.
-/

namespace UnitScript

open Grammar

/-! ## What is derived is read -/

/-- A statement does not go on with this token. -/
def EndsStatement (next : Token.Kind) : Prop :=
  next = .newline ∨ next = .endOfFile ∨ next = .rightBrace

theorem EndsStatement.endsExpression {next : Token.Kind} (h : EndsStatement next) :
    Parse.EndsExpression next := by
  rcases h with rfl | rfl | rfl <;> exact ⟨⟨⟨⟨⟨nofun, nofun⟩, nofun⟩, rfl⟩, rfl⟩, rfl⟩

theorem EndsStatement.ne_assign {next : Token.Kind} (h : EndsStatement next) : next ≠ .assign := by
  rintro rfl
  rcases h with h | h | h <;> cases h

theorem AtClose.endsStatement {inBlock : Bool} {next : Token.Kind} (h : AtClose inBlock next) :
    EndsStatement next := by
  rcases h with rfl | ⟨_, rfl⟩
  · exact .inr (.inl rfl)
  · exact .inr (.inr rfl)

/-- An expression is not mistaken for an assignment. -/
theorem secondKind_ne_assign {s : TokenStream} {read rest : List Token.Kind} (h : Proper read)
    (hkinds : s.kinds = read ++ rest) (hrest : rest.headD .endOfFile ≠ .assign) :
    s.secondKind ≠ .assign := by
  obtain ⟨k, more, rfl, _⟩ := h.starts
  rw [TokenStream.secondKind_eq, hkinds]
  cases more with
  | nil => exact hrest
  | cons k' more =>
    have hwithin := h.within k' (by simp)
    rintro rfl
    exact hwithin

theorem Parse.complete_simpleStatement (fuel levels : Nat) :
    Parse.Complete fuel Stmt.erase
      (fun read next statement =>
        Statement (Expression levels) (fun _ _ => False) read statement ∧ EndsStatement next)
      (Parse.simpleStatement fuel levels) := by
  intro s read rest statement hkinds hbound hstatement
  obtain ⟨hstatement, hends⟩ := hstatement
  cases hstatement with
  | @assign read value name hvalue =>
    have hkind : s.kind = .identifier name := TokenStream.kind_of_kinds hkinds
    have hsecond : s.secondKind = .assign := by
      rw [TokenStream.secondKind_eq, hkinds]
      rfl
    have hadvanced : s.advance.advance.kinds = read ++ rest := by
      rw [TokenStream.kinds_advance, TokenStream.kinds_advance, hkinds]
      rfl
    have hlength : s.advance.advance.kinds.length ≤ fuel := by
      rw [hadvanced]
      rw [hkinds] at hbound
      simp only [List.cons_append, List.length_cons] at hbound
      omega
    unfold Parse.simpleStatement
    simp only [hkind, hsecond]
    refine (Parse.complete_expression fuel levels s.advance.advance read rest value hadvanced
      hlength ⟨hvalue, hends.endsExpression⟩).bind fun value' s' hread => ?_
    refine ⟨?_, hread.2⟩
    rw [Stmt.erase, hread.1]
  | @display _ value hvalue =>
    have hassign := hends.ne_assign
    unfold Parse.simpleStatement
    split
    · next hsecond => exact absurd hsecond (secondKind_ne_assign hvalue.proper hkinds hassign)
    · refine (Parse.complete_expression fuel levels s read rest value hkinds hbound
        ⟨hvalue, hends.endsExpression⟩).bind fun value' s' hread => ?_
      rw [Parse.peek_bind, TokenStream.kind_eq, hread.2, if_neg hassign]
      refine ⟨?_, hread.2⟩
      rw [Stmt.erase, hread.1]
  | block hbody => exact hbody.elim

namespace Reading

variable {source : Source} {levels : Nat}

/-- A statement that is derived is read without a complaint. -/
def StatementComplete (source : Source) (levels : Nat) : Prop :=
  ∀ fuel (reading : Reading) read rest statement, reading.stream.kinds = read ++ rest →
    reading.stream.kinds.length ≤ fuel → reading.log.totalErrors = 0 →
    StatementIn levels read statement → EndsStatement (rest.headD .endOfFile) →
    ∃ statement' stream, reading.statement source (fuel + 1) (statements source fuel true) levels =
        (some statement', ⟨stream, reading.log⟩) ∧
      statement'.erase = statement ∧ stream.kinds = rest

/-- Statements that are derived are read without a complaint. -/
def StatementsComplete (source : Source) (levels : Nat) : Prop :=
  ∀ fuel inBlock (reading : Reading) read rest found, reading.stream.kinds = read ++ rest →
    reading.stream.kinds.length < fuel → reading.log.totalErrors = 0 →
    Statements (StatementIn levels) read found → AtClose inBlock (rest.headD .endOfFile) →
    ∃ found' stream, statements source fuel inBlock levels reading =
        (found', ⟨stream, reading.log⟩) ∧
      Stmt.eraseAll found' = found ∧ stream.kinds = rest

theorem complete_statement (hbody : StatementsComplete source levels) :
    StatementComplete source (levels + 1) := by
  intro fuel reading read rest statement hkinds hlength hclean h hends
  -- what is not a block is read as a simple statement
  have hsimple (hopen : reading.stream.kind ≠ .leftBrace)
      (hstatement : Statement (Expression (levels + 1)) (fun _ _ => False) read statement) :
      ∃ statement' stream, reading.statement source (fuel + 1) (statements source fuel true)
          (levels + 1) = (some statement', ⟨stream, reading.log⟩) ∧
        statement'.erase = statement ∧ stream.kinds = rest := by
    obtain ⟨statement', stream, heq, herase, hstream⟩ :=
      (Parse.complete_simpleStatement (fuel + 1) (levels + 1) reading.stream read rest statement
        hkinds (by omega) ⟨hstatement, hends⟩).exists_ok
    refine ⟨statement', stream, ?_, herase, hstream⟩
    simp only [Reading.statement, if_neg hopen, attempt, heq]
  cases h with
  | assign name hvalue =>
    refine hsimple ?_ (.assign name hvalue)
    rw [TokenStream.kind_of_kinds hkinds]
    exact nofun
  | display hvalue =>
    refine hsimple ?_ (.display hvalue)
    obtain ⟨k, more, rfl, _⟩ := hvalue.proper.starts
    have hwithin := hvalue.proper.within k List.mem_cons_self
    rw [TokenStream.kind_of_kinds hkinds]
    rintro rfl
    exact hwithin
  | @block read body hstatements =>
    have hopen : reading.stream.kind = .leftBrace := TokenStream.kind_of_kinds hkinds
    have hadvanced : (reading.move .advance).stream.kinds = read ++ .rightBrace :: rest := by
      change reading.stream.advance.kinds = _
      rw [TokenStream.kinds_advance, hkinds]
      simp
    have hshorter : (reading.move .advance).stream.kinds.length < fuel := by
      rw [hadvanced]
      rw [hkinds] at hlength
      simp only [List.cons_append, List.append_assoc, List.length_cons, List.length_append,
        List.length_nil] at hlength ⊢
      omega
    obtain ⟨body', stream, heq, hbody', hstream⟩ := hbody fuel true (reading.move .advance) read _
      body hadvanced hshorter hclean hstatements (.inr ⟨rfl, rfl⟩)
    have hclose : stream.kind = .rightBrace := TokenStream.kind_of_kinds hstream
    refine ⟨.block body' (reading.stream.span.join stream.advance.previous), stream.advance, ?_, ?_, ?_⟩
    · simp only [Reading.statement, if_pos hopen, block, heq, if_pos hclose]
      rfl
    · rw [Stmt.erase, hbody']
    · exact TokenStream.kinds_advance_of_cons hstream

/-- Reading statements starts with passing over newlines. -/
theorem statements_congr {fuel : Nat} {inBlock : Bool} {reading other : Reading}
    (hstream : reading.stream.skipNewlines = other.stream.skipNewlines)
    (hlog : reading.log = other.log) :
    statements source (fuel + 1) inBlock levels reading =
      statements source (fuel + 1) inBlock levels other := by
  have hmove : reading.move .skipNewlines = other.move .skipNewlines := by
    simp only [move, hstream, hlog]
  unfold statements
  simp only [hmove]

theorem move_skipNewlines_of_ne {reading : Reading} (h : reading.stream.kind ≠ .newline) :
    reading.move .skipNewlines = reading := by
  simp only [move, TokenStream.skipNewlines_of_ne h]

/-- What comes behind the last statement ends them all. -/
theorem statements_of_last {fuel : Nat} {inBlock : Bool} {reading : Reading}
    {rest : List Token.Kind} (hkinds : reading.stream.kinds = rest) (hlength : rest.length < fuel)
    (hclose : AtClose inBlock (rest.headD .endOfFile)) :
    statements source fuel inBlock levels reading = ([], reading) := by
  have hkind : reading.stream.kind = rest.headD .endOfFile := by
    rw [TokenStream.kind_eq, hkinds]
  have hne : reading.stream.kind ≠ .newline := by
    rw [hkind]
    rcases hclose with h | ⟨_, h⟩ <;> rw [h] <;> exact nofun
  obtain ⟨fuel, rfl⟩ : ∃ n, fuel = n + 1 := Nat.exists_eq_add_one_of_ne_zero (by omega)
  rw [statements_of_close fuel (by rwa [TokenStream.skipNewlines_of_ne hne, hkind]),
    move_skipNewlines_of_ne hne]

/-- A statement that is derived is read, and reading goes on behind it. -/
theorem statements_of_derived (hstatement : StatementComplete source levels) {fuel : Nat}
    {inBlock : Bool} {reading : Reading} {read rest : List Token.Kind} {statement : Stmt}
    (hkinds : reading.stream.kinds = read ++ rest) (hlength : reading.stream.kinds.length < fuel + 1)
    (hclean : reading.log.totalErrors = 0) (h : StatementIn levels read statement)
    (hends : EndsStatement (rest.headD .endOfFile)) :
    ∃ statement' stream, statements source (fuel + 1) inBlock levels reading =
        (statement' :: (statements source fuel inBlock levels
            (endStatement source ⟨stream, reading.log⟩)).1,
          (statements source fuel inBlock levels (endStatement source ⟨stream, reading.log⟩)).2) ∧
      statement'.erase = statement ∧ stream.kinds = rest := by
  obtain ⟨statement', stream, heq, herase, hstream⟩ :=
    hstatement fuel reading read rest statement hkinds (by omega) hclean h hends
  obtain ⟨k, more, rfl, hnewline, hbrace, hend⟩ := h.starts
  have hkind : reading.stream.kind = k := TokenStream.kind_of_kinds hkinds
  have hskip := move_skipNewlines_of_ne (by rwa [hkind])
  have hkind' : reading.stream.skipNewlines.kind = k := by
    rw [TokenStream.skipNewlines_of_ne (by rwa [hkind]), hkind]
  refine ⟨statement', stream, ?_, herase, hstream⟩
  rw [statements_of_statement fuel hclean, hskip, heq]
  · rw [hkind']
    rintro (h | ⟨_, h⟩)
    · exact hend h
    · exact hbrace h
  · rwa [hkind']

/-- Statements are read if each of them is. -/
theorem complete_statements_of (hstatement : StatementComplete source levels) :
    StatementsComplete source levels := by
  intro fuel inBlock reading read rest found hkinds hlength hclean h hclose
  induction h generalizing fuel reading with
  | nil =>
    have hkinds : reading.stream.kinds = rest := hkinds
    refine ⟨[], reading.stream, statements_of_last hkinds (hkinds ▸ hlength) hclose, ?_, hkinds⟩
    rw [Stmt.eraseAll]
  | @newline read found _ ih =>
    obtain ⟨fuel, rfl⟩ : ∃ n, fuel = n + 1 := Nat.exists_eq_add_one_of_ne_zero (by omega)
    have hadvanced : (reading.move .advance).stream.kinds = read ++ rest := by
      change reading.stream.advance.kinds = _
      exact TokenStream.kinds_advance_of_cons hkinds
    have hshorter : (reading.move .advance).stream.kinds.length < fuel + 1 := by
      rw [hadvanced]
      rw [hkinds] at hlength
      simp only [List.cons_append, List.length_cons] at hlength
      omega
    have hskip : reading.stream.skipNewlines = (reading.move .advance).stream.skipNewlines :=
      (TokenStream.skipNewlines_advance (TokenStream.kind_of_kinds hkinds)).symm
    rw [statements_congr hskip rfl]
    exact ih (fuel + 1) (reading.move .advance) hadvanced hshorter hclean
  | @last read statement hderived =>
    obtain ⟨fuel, rfl⟩ : ∃ n, fuel = n + 1 := Nat.exists_eq_add_one_of_ne_zero (by omega)
    obtain ⟨statement', stream, heq, herase, hstream⟩ :=
      statements_of_derived hstatement hkinds hlength hclean hderived hclose.endsStatement
    have hended : endStatement source ⟨stream, reading.log⟩ = ⟨stream, reading.log⟩ := by
      have hkind : stream.kind = rest.headD .endOfFile := by rw [TokenStream.kind_eq, hstream]
      unfold endStatement
      rcases hclose with h | ⟨_, h⟩ <;> simp only [hkind, h]
    have hshorter : rest.length < fuel := by
      obtain ⟨k, more, rfl, _⟩ := hderived.starts
      rw [hkinds] at hlength
      simp only [List.cons_append, List.length_cons, List.length_append] at hlength
      omega
    rw [hended, statements_of_last hstream hshorter hclose] at heq
    refine ⟨[statement'], stream, heq, ?_, hstream⟩
    rw [Stmt.eraseAll, Stmt.eraseAll, herase]
  | @cons read read' statement later hderived _ ih =>
    obtain ⟨fuel, rfl⟩ : ∃ n, fuel = n + 1 := Nat.exists_eq_add_one_of_ne_zero (by omega)
    have hsplit : reading.stream.kinds = read ++ (.newline :: read' ++ rest) := by
      rw [hkinds, List.append_assoc]
    obtain ⟨statement', stream, heq, herase, hstream⟩ :=
      statements_of_derived hstatement hsplit hlength hclean hderived (.inl rfl)
    have hkind : stream.kind = .newline := TokenStream.kind_of_kinds hstream
    have hended : endStatement source ⟨stream, reading.log⟩ = ⟨stream.skipNewlines, reading.log⟩ := by
      unfold endStatement
      simp only [hkind]
      rfl
    have hadvanced : stream.advance.kinds = read' ++ rest :=
      TokenStream.kinds_advance_of_cons hstream
    have hshorter : stream.advance.kinds.length < fuel := by
      rw [hadvanced]
      rw [hsplit] at hlength
      simp only [List.cons_append, List.length_cons, List.length_append] at hlength ⊢
      omega
    obtain ⟨later', last, hlater, herased, hlast⟩ :=
      ih fuel ⟨stream.advance, reading.log⟩ hadvanced hshorter hclean
    -- newlines that were passed over at the end of the statement are not missed
    obtain ⟨fuel, rfl⟩ : ∃ n, fuel = n + 1 := Nat.exists_eq_add_one_of_ne_zero (by omega)
    have hskip : stream.skipNewlines.skipNewlines = stream.advance.skipNewlines := by
      rw [TokenStream.skipNewlines_advance hkind,
        TokenStream.skipNewlines_of_ne (TokenStream.kind_skipNewlines_ne stream)]
    have hsame : statements source (fuel + 1) inBlock levels ⟨stream.skipNewlines, reading.log⟩ =
        statements source (fuel + 1) inBlock levels ⟨stream.advance, reading.log⟩ :=
      statements_congr hskip rfl
    rw [hended, hsame, hlater] at heq
    refine ⟨statement' :: later', last, heq, ?_, hlast⟩
    rw [Stmt.eraseAll, herase, herased]

theorem complete_statements (source : Source) (levels : Nat) : StatementsComplete source levels := by
  induction levels with
  | zero =>
    refine complete_statements_of ?_
    intro fuel reading read rest statement _ _ _ h
    exact h.elim
  | succ levels ih => exact complete_statements_of (complete_statement ih)

end Reading

/-! ## Whole programs -/

/-- A token list with a single end of file at its end is read up to there. -/
theorem TokenStream.kinds_ofTokens {body : List Token} {final : Token}
    (hbody : ∀ token ∈ body, token.kind ≠ .endOfFile) (hfinal : final.kind = .endOfFile) :
    (ofTokens (body ++ [final])).kinds = body.map (·.kind) := by
  have hrest : (ofTokens (body ++ [final])).rest = body := by
    unfold ofTokens
    rw [List.takeWhile_append_of_pos fun token htoken => by simpa using hbody token htoken]
    simp [hfinal]
  rw [kinds, hrest]

namespace Program

variable (source : Source) {body : List Token} {final : Token}

/-- What the parser reads of a program that is derived. -/
theorem parse_of_derived (hbody : ∀ token ∈ body, token.kind ≠ .endOfFile)
    (hfinal : final.kind = .endOfFile) {statements : List Stmt}
    (h : Script (body.map (·.kind)) statements) :
    (parse source (body ++ [final])).log.totalErrors = 0 ∧
      ∃ program, (parse source (body ++ [final])).program = some program ∧
        Stmt.eraseAll program.statements = statements := by
  have hkinds := TokenStream.kinds_ofTokens hbody hfinal
  unfold parse
  generalize TokenStream.ofTokens (body ++ [final]) = stream at hkinds
  have hskipped : stream.skipNewlines.kinds = stream.skipNewlines.kinds ++ [] := by simp
  have hderived : Statements (StatementIn maxNesting) stream.skipNewlines.kinds statements := by
    rw [TokenStream.kinds_skipNewlines, hkinds]
    exact h.dropWhile
  have hlength : stream.skipNewlines.kinds.length < stream.skipNewlines.rest.length + 1 := by
    rw [TokenStream.kinds, List.length_map]
    exact Nat.lt_succ_self _
  obtain ⟨found, last, heq, hfound, _⟩ := Reading.complete_statements source maxNesting
    (stream.skipNewlines.rest.length + 1) false ⟨stream.skipNewlines, ∅⟩ _ [] statements hskipped
    hlength rfl hderived (.inl rfl)
  simp only [heq]
  refine ⟨rfl, ⟨found, stream.skipNewlines.span.join last.previous⟩, ?_, hfound⟩
  rw [show (∅ : Diagnostics).hasErrors = false from rfl, Bool.and_false]
  rfl

/-- What the parser reads without an error is derived. -/
theorem derived_of_parse (hbody : ∀ token ∈ body, token.kind ≠ .endOfFile)
    (hfinal : final.kind = .endOfFile)
    (hclean : (parse source (body ++ [final])).log.totalErrors = 0) :
    ∃ statements, Script (body.map (·.kind)) statements := by
  have hkinds := TokenStream.kinds_ofTokens hbody hfinal
  unfold parse at hclean
  generalize TokenStream.ofTokens (body ++ [final]) = stream at hkinds hclean
  obtain ⟨newlines, hnewlines, hskipped⟩ := TokenStream.kinds_eq_newlines_append stream
  have hlength : stream.skipNewlines.kinds.length < stream.skipNewlines.rest.length + 1 := by
    rw [TokenStream.kinds, List.length_map]
    exact Nat.lt_succ_self _
  cases hresult : Reading.statements source (stream.skipNewlines.rest.length + 1) false maxNesting
      ⟨stream.skipNewlines, ∅⟩ with
  | mk found after =>
    simp only [hresult] at hclean
    obtain ⟨read, hread, hderived, hclose⟩ := Reading.sound_statements source _ false maxNesting
      ⟨stream.skipNewlines, ∅⟩ after found hlength hresult hclean
    -- no token of the list is the end of the file, so nothing is left
    have hlast : after.stream.kinds = [] := by
      rcases hclose with hend | ⟨hblock, _⟩
      · rw [TokenStream.kind_eq] at hend
        cases hrest : after.stream.kinds with
        | nil => rfl
        | cons k more =>
          have hmem : Token.Kind.endOfFile ∈ body.map (·.kind) := by
            rw [← hkinds, hskipped, show stream.skipNewlines.kinds = read ++ after.stream.kinds from
              hread, hrest]
            rw [hrest] at hend
            simp [show k = .endOfFile from hend]
          obtain ⟨token, htoken, hkind⟩ := List.mem_map.1 hmem
          exact absurd hkind (hbody token htoken)
      · cases hblock
    refine ⟨Stmt.eraseAll found, ?_⟩
    rw [← hkinds, hskipped, show stream.skipNewlines.kinds = read ++ after.stream.kinds from hread,
      hlast, List.append_nil]
    exact hderived.newlines_append hnewlines

/-- The parser accepts exactly the programs of the grammar.  It finds no error
in a token list that ends at the end of the file if and only if all tokens
before that derive a program.  Then they derive only one, up to spans, and that
is the program that is returned. -/
theorem parse_accepts_grammar (source : Source) (body : List Token) (final : Token)
    (hbody : ∀ token ∈ body, token.kind ≠ .endOfFile) (hfinal : final.kind = .endOfFile) :
    let parsed := parse source (body ++ [final])
    let kinds := body.map (·.kind)
    (parsed.log.totalErrors = 0 ↔ ∃ statements, Script kinds statements) ∧
    (∀ statements other, Script kinds statements → Script kinds other → statements = other) ∧
    (∀ statements, Script kinds statements →
      ∃ program, parsed.program = some program ∧
        Stmt.eraseAll program.statements = statements) := by
  intro parsed kinds
  refine ⟨⟨derived_of_parse source hbody hfinal, ?_⟩, ?_, ?_⟩
  · rintro ⟨statements, hstatements⟩
    exact (parse_of_derived source hbody hfinal hstatements).1
  · intro statements other hstatements hother
    obtain ⟨_, program, hprogram, herased⟩ := parse_of_derived source hbody hfinal hstatements
    obtain ⟨_, program', hprogram', herased'⟩ := parse_of_derived source hbody hfinal hother
    rw [hprogram] at hprogram'
    cases hprogram'
    rw [← herased, ← herased']
  · intro statements hstatements
    exact (parse_of_derived source hbody hfinal hstatements).2

/-- The exponent in `a = 5 m^2` belongs to the unit. -/
theorem parse_accepts_grammar_square :
    let kinds : List Token.Kind :=
      [.identifier "a", .assign, .integer 5, .identifier "m", .caret, .integer 2]
    let square : UnitExpr :=
      .binary .pow (.symbol "m" .nowhere) (.number (.integer 2) .nowhere) .nowhere
    let statements : List Stmt :=
      [.assign ⟨"a", .nowhere⟩ (.cast (.literal (.integer 5) .nowhere) square .nowhere) .nowhere]
    let body : List Token := kinds.map (⟨·, .nowhere⟩)
    Script kinds statements ∧
      ∃ program, (parse ⟨"s", ""⟩ (body ++ [⟨.endOfFile, .nowhere⟩])).program = some program ∧
        Stmt.eraseAll program.statements = statements := by
  intro kinds square statements body
  have hunit : UnitFactor (UnitNested 0) false [.identifier "m", .caret, .integer 2] square :=
    .power (.symbol "m") (.atom (.integer 2))
  have hscript : Script kinds statements :=
    .last (.assign "a" (.operand (.operand (.operand (.operand (.primary
      (.number (.integer 5) (.unit (.identifier "m") hunit))))))))
  have hbody : ∀ token ∈ body, token.kind ≠ .endOfFile := by decide
  exact ⟨hscript, (parse_accepts_grammar _ body ⟨.endOfFile, .nowhere⟩ hbody rfl).2.2 _ hscript⟩

end Program

end UnitScript
