import Mathlib.Algebra.GroupWithZero.Nat
import Mathlib.Data.List.DropRight
import UnitScript.Proofs.Grammar.Statements
import UnitScript.Proofs.Grammar.Termination

/-!
# Parsing line by line

Lines of tokens that close the parentheses they open are parsed one by one.  A line
that cannot be read costs one error and no statement but its own, wherever inside of
it reading fails.

* `Parse.SameLine` relates a stream to one that ends with the line.  Newlines are
  passed over inside of parentheses only, and there a closing one is still to come on
  the line, so reading does not leave it: `parallel_sameLine`.
* `Reading.ofLine` is what a line gives, `turn_of_line` that a turn gives just that
  and leaves the next line.
* `statements_of_lines` follows the turns through all lines, and
  `parse_line_by_line` is the result.
-/

namespace UnitScript

/-- Lines of tokens, one below the other.  Each comes with the span of the newline
that is put in front of it, unless it is the first line. -/
def Token.joinLines : (lines : List (Span × List Token)) → List Token
  | [] => []
  | (_, first) :: later => first ++ later.flatMap fun line => ⟨.newline, line.1⟩ :: line.2

/-- How many of the tokens are of a kind. -/
def Token.count (kind : Token.Kind) (tokens : List Token) : Nat :=
  tokens.countP fun token => token.kind = kind

theorem Token.count_cons (kind : Token.Kind) (token : Token) (tokens : List Token) :
    Token.count kind (token :: tokens) =
      Token.count kind tokens + if token.kind = kind then 1 else 0 := by
  simp [Token.count, List.countP_cons]

/-- A line of tokens without braces, whose parentheses are balanced. -/
structure Token.PlainLine (line : List Token) : Prop where
  oneLine : ∀ token ∈ line, token.kind ≠ .newline ∧ token.kind ≠ .endOfFile
  noBraces : ∀ token ∈ line, token.kind ≠ .leftBrace ∧ token.kind ≠ .rightBrace
  balanced : Token.count .leftParen line = Token.count .rightParen line
  opensFirst : ∀ n ≤ line.length,
    Token.count .rightParen (line.take n) ≤ Token.count .leftParen (line.take n)

/-- The statements that were read. -/
def Parsed.statements (parsed : Parsed) : List Stmt :=
  (parsed.program.map (·.statements)).getD []

/-! ## A line and what comes behind it -/

namespace Parse

open TokenStream (isInsideStatement)

/-- The stream `t` has only the rest of a line, and `s` has `more` behind it.  On this
line the `d` parentheses that are open are closed again. -/
structure SameLine (more : List Token) (d : Nat) (s t : TokenStream) : Prop where
  rest : s.rest = t.rest ++ more
  inside : ∀ token ∈ t.rest, isInsideStatement token.kind = true
  closes : Token.count .leftParen t.rest + d ≤ Token.count .rightParen t.rest

variable {more : List Token} {d : Nat} {s t : TokenStream}

theorem not_endsLine_of_inside {k : Token.Kind} (h : isInsideStatement k = true) : ¬k.EndsLine := by
  rintro (rfl | rfl) <;> cases h

/-- What comes behind a line is nothing or starts with a newline. -/
def Breaks (more : List Token) : Prop := ∀ token ∈ more.head?, token.kind = .newline

/-- Both streams are at the end of the line, or both at one token. -/
theorem SameLine.cases (hmore : Breaks more) (h : SameLine more d s t) :
    t.rest = [] ∧ s.kind.EndsLine ∧ t.kind.EndsLine ∨
      ∃ token rest, t.rest = token :: rest ∧ s.rest = token :: (rest ++ more) := by
  have hrest := h.rest
  cases ht : t.rest with
  | nil =>
    rw [ht] at hrest
    refine .inl ⟨rfl, ?_, ?_⟩
    · unfold TokenStream.kind
      rw [hrest]
      cases more with
      | nil => exact .inr rfl
      | cons token more => exact .inl (hmore token rfl)
    · unfold TokenStream.kind
      rw [ht]
      exact .inr rfl
  | cons token rest =>
    rw [ht] at hrest
    exact .inr ⟨token, rest, rfl, hrest⟩

/-- A token is read, and the number of open parentheses changes from `d` to `d'`. -/
theorem SameLine.advance {d' : Nat} (hmore : Breaks more) (h : SameLine more d s t)
    (hends : ¬s.kind.EndsLine)
    (hcloses : ∀ token rest, t.rest = token :: rest → token.kind = s.kind →
      Token.count .leftParen rest + d' ≤ Token.count .rightParen rest) :
    SameLine more d' s.advance t.advance := by
  rcases h.cases hmore with ⟨_, hends', _⟩ | ⟨token, rest, ht, hs⟩
  · exact absurd hends' hends
  have hs' : s.advance.rest = rest ++ more := by
    unfold TokenStream.advance
    rw [hs]
  have ht' : t.advance.rest = rest := by
    unfold TokenStream.advance
    rw [ht]
  refine ⟨by rw [hs', ht'], ?_, ?_⟩ <;> rw [ht']
  · intro token htoken
    exact h.inside token (by rw [ht]; exact List.mem_cons_of_mem _ htoken)
  · exact hcloses token rest ht (by rw [TokenStream.kind, hs])

theorem parallel_sameLine (hmore : Breaks more) : Parallel (fun _ _ => True) (SameLine more) where
  kinds h := by
    rcases h.cases hmore with ⟨_, hends⟩ | ⟨token, rest, ht, hs⟩
    · exact .inr hends
    · left
      rw [TokenStream.kind, TokenStream.kind, hs, ht]
  spans h _ hends := by
    rcases h.cases hmore with ⟨_, hends', _⟩ | ⟨token, rest, ht, hs⟩
    · exact absurd hends' hends
    · rw [TokenStream.span, TokenStream.span, hs, ht]
  complains _ _ := trivial
  advance h _ hends hk hopen hclose := by
    refine h.advance hmore hends fun token rest ht hkind => ?_
    have hcloses := h.closes
    rw [ht, Token.count_cons, Token.count_cons, hkind, hk, if_neg hopen, if_neg hclose] at hcloses
    omega
  opens h hs ht := by
    refine h.advance hmore (by rw [hs]; decide) fun token rest ht hkind => ?_
    have hcloses := h.closes
    simp only [ht, Token.count_cons, hkind, hs, reduceCtorEq, if_true, if_false] at hcloses
    omega
  closes h hs ht := by
    refine h.advance hmore (by rw [hs]; decide) fun token rest ht hkind => ?_
    have hcloses := h.closes
    simp only [ht, Token.count_cons, hkind, hs, reduceCtorEq, if_true, if_false] at hcloses
    omega
  newlines {d s t} h := by
    -- a closing parenthesis is still to come, so neither stream is at a newline
    rcases h.cases hmore with ⟨ht, _⟩ | ⟨token, rest, ht, hs⟩
    · have hcloses := h.closes
      rw [ht] at hcloses
      exact absurd hcloses (Nat.not_succ_le_zero _)
    · have hinside := not_endsLine_of_inside (h.inside token (by rw [ht]; exact List.mem_cons_self))
      have hne : token.kind ≠ .newline := fun hk => hinside (.inl hk)
      rw [TokenStream.skipNewlines_of_ne (by rwa [TokenStream.kind, hs]),
        TokenStream.skipNewlines_of_ne (by rwa [TokenStream.kind, ht])]
      exact h

/-- The stream of a line alone. -/
def alone (line : List Token) : TokenStream := ⟨line, .point .origin, .point .origin⟩

theorem sameLine_of_plainLine {line : List Token} (h : Token.PlainLine line)
    (hrest : s.rest = line ++ more) : SameLine more 0 s (alone line) where
  rest := hrest
  inside token htoken := by
    have hends := h.oneLine token htoken
    have hbrace := h.noBraces token htoken
    simp [isInsideStatement, hends, hbrace]
  closes := Nat.le_of_eq h.balanced

/-- Skipping leads to the next line. -/
theorem SameLine.rest_synchronize (hmore : Breaks more) (h : SameLine more d s t) :
    s.synchronize.rest = more.dropWhile fun token => token.kind == .newline := by
  have hstop : more.dropWhile (fun token => isInsideStatement token.kind) = more := by
    cases more with
    | nil => rfl
    | cons token more => rw [List.dropWhile_cons_of_neg (by rw [hmore token rfl]; nofun)]
  have hskip : (s.skipWhile isInsideStatement).rest = more := by
    show s.rest.dropWhile (fun token => isInsideStatement token.kind) = more
    rw [h.rest, List.dropWhile_append_of_pos h.inside, hstop]
  show (s.skipWhile isInsideStatement).rest.dropWhile (fun token => token.kind == .newline) = _
  rw [hskip]

end Parse

/-! ## One line -/

namespace Reading

open Parse

/-- What a line gives: maybe a statement, and a number of errors. -/
def ofLine (levels : Nat) (line : List Token) : Option Stmt × Nat :=
  if line = [] then (none, 0)
  else
    match simpleStatement line.length levels (alone line) with
    | .ok statement s => (some statement, if s.rest = [] then 0 else 1)
    | .error _ _ => (none, 1)

theorem errors_ofLine_le (levels : Nat) (line : List Token) : (ofLine levels line).2 ≤ 1 := by
  unfold ofLine
  split
  · exact Nat.zero_le _
  · split
    · split
      · exact Nat.zero_le _
      · exact Nat.le_refl _
    · exact Nat.le_refl _

theorem countP_ofLine (levels : Nat) (lines : List (Span × List Token)) :
    lines.countP (fun line => decide (0 < (ofLine levels line.2).2)) =
      (lines.map fun line => (ofLine levels line.2).2).sum := by
  induction lines with
  | nil => rfl
  | cons line lines ih =>
    have hle := errors_ofLine_le levels line.2
    simp only [List.countP_cons, List.map_cons, List.sum_cons, ih, decide_eq_true_eq]
    split <;> omega

variable {source : Source} {reading : Reading} {more line : List Token} {d : Nat} {t : TokenStream}

theorem totalErrors_complain (log : Diagnostics) {complaint : Complaint}
    (h : complaint.IsError) :
    (log.complain source complaint).totalErrors = log.totalErrors + 1 := by
  have hseverity : (source.diagnose complaint.problem.issue complaint.span).severity = .error := h
  unfold Diagnostics.complain Diagnostics.report Diagnostics.push
  rw [hseverity]

theorem endStatement_of_endsLine (h : reading.stream.kind.EndsLine) :
    reading.endStatement source = reading.move .skipNewlines := by
  unfold endStatement
  rcases h with hk | hk <;> simp only [hk]
  rw [move, TokenStream.skipNewlines_of_ne (by simp [hk])]

theorem endStatement_of_inside (h : TokenStream.isInsideStatement reading.stream.kind = true) :
    reading.endStatement source =
      (reading.complain source (.expectedStatementEnd reading.stream.kind)
        reading.stream.span).move .synchronize := by
  unfold endStatement
  split
  · next hk => rw [hk] at h; cases h
  · next hk => rw [hk] at h; cases h
  · next hk => rw [hk] at h; cases h
  · rfl

/-- Behind a statement the rest of its line is skipped, and is an error unless there is
none. -/
theorem endStatement_of_line (source : Source) (reading : Reading) (hmore : Breaks more)
    (h : SameLine more d reading.stream t) :
    (reading.endStatement source).stream.rest =
        (more.dropWhile fun token => token.kind == .newline) ∧
      (reading.endStatement source).log.totalErrors =
        reading.log.totalErrors + if t.rest = [] then 0 else 1 := by
  rcases h.cases hmore with ⟨ht, hends, _⟩ | ⟨token, rest, ht, hs⟩
  · have hrest : reading.stream.rest = more := by rw [h.rest, ht, List.nil_append]
    rw [endStatement_of_endsLine hends, if_pos ht, ← hrest]
    exact ⟨rfl, rfl⟩
  · have hinside : TokenStream.isInsideStatement reading.stream.kind = true := by
      rw [TokenStream.kind, hs]
      exact h.inside token (by rw [ht]; exact List.mem_cons_self)
    have hne : t.rest ≠ [] := by simp [ht]
    rw [endStatement_of_inside hinside, if_neg hne]
    exact ⟨h.rest_synchronize hmore, totalErrors_complain reading.log rfl⟩

/-- A turn at a line gives what the line gives, and leaves the next line. -/
theorem turn_of_line (source : Source) (reading : Reading) (hmore : Breaks more)
    (hline : Token.PlainLine line) (hne : line ≠ []) (hrest : reading.stream.rest = line ++ more)
    {fuel : Nat} (hfuel : reading.stream.rest.length ≤ fuel) (levels : Nat)
    (body : (levels : Nat) → Reading → List Stmt × Reading) :
    (reading.turn source fuel body levels).1 = (ofLine levels line).1 ∧
      (reading.turn source fuel body levels).2.stream.rest =
        (more.dropWhile fun token => token.kind == .newline) ∧
      (reading.turn source fuel body levels).2.log.totalErrors =
        reading.log.totalErrors + (ofLine levels line).2 := by
  have hkind : reading.stream.kind ≠ .leftBrace ∧ reading.stream.kind ≠ .rightBrace := by
    obtain ⟨token, rest, rfl⟩ := List.exists_cons_of_ne_nil hne
    rw [TokenStream.kind, hrest]
    exact hline.noBraces token List.mem_cons_self
  have htogether := parallel_simpleStatement (parallel_sameLine hmore) fuel line.length levels
    reading.stream (alone line) (sameLine_of_plainLine hline hrest) hfuel (Nat.le_refl _)
  have herror := sound_simpleStatement fuel levels reading.stream
  unfold turn statement attempt ofLine
  rw [if_neg hkind.1, if_neg hkind.2, if_neg hne]
  rcases htogether.cases with ⟨statement, s', t', hread, halone, hsame, _⟩ |
    ⟨complaint, _, s', t', hread, halone, _, d', hsame⟩
  · rw [hread, halone]
    exact ⟨rfl, endStatement_of_line source ⟨s', reading.log⟩ hmore hsame⟩
  · rw [hread] at herror
    rw [hread, halone]
    exact ⟨rfl, hsame.rest_synchronize hmore, totalErrors_complain reading.log herror⟩

/-- Statements at the start of a line: what the line gives, and what is read from the
next line on. -/
theorem statements_of_line (source : Source) (levels : Nat) (hmore : Breaks more)
    (hline : Token.PlainLine line) (hne : line ≠ [])
    (hrest : reading.stream.skipNewlines.rest = line ++ more) {fuel : Nat}
    (hfuel : reading.stream.rest.length ≤ fuel)
    (hlog : reading.log.totalErrors < Diagnostics.limit) :
    ∃ next : Reading,
      next.stream.rest = (more.dropWhile fun token => token.kind == .newline) ∧
      next.stream.rest.length < reading.stream.rest.length ∧
      next.log.totalErrors = reading.log.totalErrors + (ofLine levels line).2 ∧
      statements source (fuel + 1) false levels reading =
        ((ofLine levels line).1.toList ++ (statements source fuel false levels next).1,
          (statements source fuel false levels next).2) := by
  have hlength : reading.stream.skipNewlines.rest.length ≤ reading.stream.rest.length :=
    reading.stream.leads_skipNewlines.length_le
  have hkind : reading.stream.skipNewlines.kind ≠ .endOfFile := by
    obtain ⟨token, rest, rfl⟩ := List.exists_cons_of_ne_nil hne
    rw [TokenStream.kind, hrest]
    exact (hline.oneLine token List.mem_cons_self).2
  have hgoes : (reading.move .skipNewlines).stops false = false := by
    simp [stops, TokenStream.atEnd, hkind, Diagnostics.atErrorLimit, move, Nat.not_le.2 hlog]
  have hcovers : reading.stream.skipNewlines.rest.length ≤ fuel + 1 := by omega
  obtain ⟨hfound, hnext, herrors⟩ := turn_of_line source (reading.move .skipNewlines) hmore hline
    hne hrest hcovers levels (statements source fuel true)
  refine ⟨_, hnext, ?_, herrors, ?_⟩
  · have hdropped :=
      (List.dropWhile_suffix (l := more) fun token => token.kind == .newline).length_le
    have hpos := List.length_pos_iff.2 hne
    rw [hrest, List.length_append] at hlength
    rw [hnext]
    omega
  · rw [statements_succ, ← hfound]
    exact if_neg (Bool.eq_false_iff.1 hgoes)

/-! ## All lines -/

theorem breaks_flatMap (later : List (Span × List Token)) :
    Breaks (later.flatMap fun line => ⟨.newline, line.1⟩ :: line.2) := by
  cases later with
  | nil => nofun
  | cons line later =>
    rintro token ⟨⟩
    rfl

/-- The newlines in front of the lines do not matter where newlines are skipped. -/
theorem dropWhile_flatMap (later : List (Span × List Token)) :
    (later.flatMap fun line => ⟨.newline, line.1⟩ :: line.2).dropWhile
        (fun token => token.kind == .newline) =
      (Token.joinLines later).dropWhile fun token => token.kind == .newline := by
  cases later with
  | nil => rfl
  | cons line later => rfl

/-- Lines are read one by one, if fewer errors than the limit are found. -/
theorem statements_of_lines (source : Source) (levels : Nat) (lines : List (Span × List Token))
    (hlines : ∀ line ∈ lines, Token.PlainLine line.2) (fuel : Nat) (reading : Reading)
    (hrest : reading.stream.skipNewlines.rest =
      (Token.joinLines lines).dropWhile fun token => token.kind == .newline)
    (hfuel : reading.stream.rest.length < fuel)
    (hfew : reading.log.totalErrors + (lines.map fun line => (ofLine levels line.2).2).sum
      < Diagnostics.limit) :
    (statements source fuel false levels reading).1 =
        lines.flatMap (fun line => (ofLine levels line.2).1.toList) ∧
      (statements source fuel false levels reading).2.log.totalErrors =
        reading.log.totalErrors + (lines.map fun line => (ofLine levels line.2).2).sum := by
  induction lines generalizing fuel reading with
  | nil =>
    obtain ⟨fuel, rfl⟩ : ∃ k, fuel = k + 1 := Nat.exists_eq_add_one_of_ne_zero (by omega)
    have hend : reading.stream.skipNewlines.kind = .endOfFile := by
      rw [TokenStream.kind, hrest]
      rfl
    rw [statements_of_close fuel (.inl hend)]
    exact ⟨rfl, rfl⟩
  | cons first later ih =>
    obtain ⟨span, line⟩ := first
    have hplain : Token.PlainLine line := hlines (span, line) List.mem_cons_self
    replace ih := ih fun line hmem => hlines line (List.mem_cons_of_mem _ hmem)
    simp only [List.map_cons, List.sum_cons, List.flatMap_cons] at hfew ⊢
    by_cases hempty : line = []
    · have hnone : ofLine levels [] = (none, 0) := rfl
      subst hempty
      simp only [hnone, Option.toList_none, List.nil_append, Nat.zero_add] at hfew ⊢
      exact ih fuel reading (hrest.trans (dropWhile_flatMap later)) hfuel hfew
    · obtain ⟨fuel, rfl⟩ : ∃ k, fuel = k + 1 := Nat.exists_eq_add_one_of_ne_zero (by omega)
      let more : List Token := later.flatMap fun line => ⟨.newline, line.1⟩ :: line.2
      have hstart : reading.stream.skipNewlines.rest = line ++ more := by
        obtain ⟨token, rest, rfl⟩ := List.exists_cons_of_ne_nil hempty
        have htoken := (hplain.oneLine token List.mem_cons_self).1
        rw [hrest, Token.joinLines, List.cons_append, List.dropWhile_cons, if_neg (by simpa)]
      obtain ⟨next, hnext, hshorter, herrors, heq⟩ := statements_of_line source levels
        (breaks_flatMap later) hplain hempty hstart (Nat.le_of_lt_succ hfuel) (by omega)
      have hskipped : next.stream.skipNewlines.rest =
          (Token.joinLines later).dropWhile fun token => token.kind == .newline := by
        show next.stream.rest.dropWhile _ = _
        rw [hnext, List.dropWhile_idempotent, dropWhile_flatMap]
      obtain ⟨hstatements, htotal⟩ := ih fuel next hskipped (by omega) (by omega)
      rw [heq, hstatements, htotal, herrors, Nat.add_assoc]
      exact ⟨rfl, rfl⟩

end Reading

/-! ## The result -/

namespace Program

variable (source : Source)

/-- Nothing is lost where no program is returned. -/
theorem statements_parse (tokens : List Token) :
    (parse source tokens).statements = (Reading.readAll source false maxNesting
      ⟨(TokenStream.ofTokens tokens).skipNewlines, ∅⟩).1 := by
  unfold parse Parsed.statements Reading.readAll
  simp only
  split
  · next h =>
    simp only [Bool.and_eq_true, List.isEmpty_iff] at h
    exact h.1.symm
  · rfl

theorem mem_joinLines {lines : List (Span × List Token)} {token : Token}
    (h : token ∈ Token.joinLines lines) :
    token.kind = .newline ∨ ∃ line ∈ lines, token ∈ line.2 := by
  cases lines with
  | nil => cases h
  | cons first later =>
    simp only [Token.joinLines, List.mem_append, List.mem_flatMap, List.mem_cons] at h
    rcases h with h | ⟨line, hline, rfl | h⟩
    · exact .inr ⟨first, List.mem_cons_self, h⟩
    · exact .inl rfl
    · exact .inr ⟨line, List.mem_cons_of_mem _ hline, h⟩

variable {lines : List (Span × List Token)} (hlines : ∀ line ∈ lines, Token.PlainLine line.2)

include hlines

/-- Joined lines give what they give one by one, if fewer errors than the limit are
found. -/
theorem parse_joinLines (final : Option Span)
    (hfew : (lines.map fun line => (Reading.ofLine maxNesting line.2).2).sum
      < Diagnostics.limit) :
    let parsed := parse source (Token.joinLines lines ++ final.toList.map (⟨.endOfFile, ·⟩))
    parsed.statements =
        lines.flatMap (fun line => (Reading.ofLine maxNesting line.2).1.toList) ∧
      parsed.log.totalErrors =
        (lines.map fun line => (Reading.ofLine maxNesting line.2).2).sum := by
  intro parsed
  let tokens := Token.joinLines lines ++ final.toList.map (⟨.endOfFile, ·⟩)
  have hrest : (TokenStream.ofTokens tokens).rest = Token.joinLines lines := by
    have hbefore : ∀ token ∈ Token.joinLines lines, (token.kind != .endOfFile) = true := by
      intro token htoken
      rcases mem_joinLines htoken with hkind | ⟨line, hline, hmem⟩
      · simp [hkind]
      · simpa using ((hlines line hline).oneLine token hmem).2
    show tokens.takeWhile _ = _
    rw [List.takeWhile_append_of_pos hbefore]
    cases final with
    | none => simp
    | some span => simp
  have hskipped : (TokenStream.ofTokens tokens).skipNewlines.skipNewlines.rest =
      (Token.joinLines lines).dropWhile fun token => token.kind == .newline := by
    show ((TokenStream.ofTokens tokens).rest.dropWhile _).dropWhile _ = _
    rw [hrest, List.dropWhile_idempotent]
  have hread := Reading.statements_of_lines source maxNesting lines hlines _
    ⟨(TokenStream.ofTokens tokens).skipNewlines, ∅⟩ hskipped (Nat.lt_succ_self _)
    (by rwa [show (∅ : Diagnostics).totalErrors = 0 from rfl, Nat.zero_add])
  rw [show parsed.statements = _ from statements_parse source tokens]
  exact ⟨hread.1, hread.2.trans (Nat.zero_add _)⟩

omit hlines in
/-- A line alone gives what it gives. -/
theorem parse_line {line : List Token} (hline : Token.PlainLine line) :
    (parse source line).statements = (Reading.ofLine maxNesting line).1.toList ∧
      (parse source line).log.totalErrors = (Reading.ofLine maxNesting line).2 := by
  have hle := Reading.errors_ofLine_le maxNesting line
  have hlimit : 1 < Diagnostics.limit := by decide
  have hlines : ∀ other ∈ [(Span.point .origin, line)], Token.PlainLine other.2 := by
    simpa using hline
  have halone := parse_joinLines source hlines none (by simp; omega)
  simpa [Token.joinLines] using halone

/-- A bad line does not disturb its neighbours.  Lines that are joined by newlines, with
or without an end of the file behind them, give the statements and the errors that they
give alone, if fewer of them than the limit have errors. -/
theorem parse_line_by_line (final : Option Span)
    (hfew : lines.countP (fun line => (parse source line.2).log.hasErrors) < Diagnostics.limit) :
    let parsed := parse source (Token.joinLines lines ++ final.toList.map (⟨.endOfFile, ·⟩))
    parsed.statements = lines.flatMap (fun line => (parse source line.2).statements) ∧
      parsed.log.totalErrors =
        (lines.map fun line => (parse source line.2).log.totalErrors).sum ∧
      ∀ line ∈ lines, (parse source line.2).log.totalErrors ≤ 1 ∧
        (parse source line.2).statements.length ≤ 1 := by
  have hline (line) (hmem : line ∈ lines) := parse_line source (hlines line hmem)
  have hle (line : Span × List Token) := Reading.errors_ofLine_le maxNesting line.2
  have hstatements : lines.flatMap (fun line => (parse source line.2).statements) =
      lines.flatMap fun line => (Reading.ofLine maxNesting line.2).1.toList :=
    List.flatMap_congr fun line hmem => (hline line hmem).1
  have herrors : (lines.map fun line => (parse source line.2).log.totalErrors) =
      lines.map fun line => (Reading.ofLine maxNesting line.2).2 :=
    List.map_congr_left fun line hmem => (hline line hmem).2
  have hbad : lines.countP (fun line => (parse source line.2).log.hasErrors) =
      (lines.map fun line => (Reading.ofLine maxNesting line.2).2).sum := by
    rw [← Reading.countP_ofLine]
    refine List.countP_congr fun line hmem => ?_
    rw [Diagnostics.hasErrors, (hline line hmem).2]
  rw [hstatements, herrors]
  have hjoined := parse_joinLines source hlines final (hbad ▸ hfew)
  refine ⟨hjoined.1, hjoined.2, fun line hmem => ?_⟩
  rw [(hline line hmem).1, (hline line hmem).2]
  refine ⟨hle line, ?_⟩
  cases (Reading.ofLine maxNesting line.2).1 <;> simp

omit hlines in
/-- The first line fails inside of two parentheses, and the second one is still read. -/
theorem parse_line_by_line_open :
    let line (kinds : List Token.Kind) : Span × List Token :=
      (.point .origin, kinds.map (⟨·, .point .origin⟩))
    let bad := line [.leftParen, .integer 1, .plus, .leftParen, .rightParen, .rightParen]
    let good := line [.identifier "y", .assign, .leftParen, .integer 2, .rightParen]
    let parsed := parse ⟨"s", ""⟩ (Token.joinLines [bad, good] ++ [⟨.endOfFile, .point .origin⟩])
    parsed.log.totalErrors = 1 ∧ parsed.statements.length = 1 := by
  intro line bad good parsed
  have hbad : Token.PlainLine bad.2 := ⟨by decide, by decide, by decide, by decide⟩
  have hgood : Token.PlainLine good.2 := ⟨by decide, by decide, by decide, by decide⟩
  have hlines : ∀ line ∈ [bad, good], Token.PlainLine line.2 := by simp [hbad, hgood]
  obtain ⟨hstatements, herrors, _⟩ :=
    parse_line_by_line ⟨"s", ""⟩ hlines (some (.point .origin)) (by decide +kernel)
  simp only [Option.toList_some, List.map_cons, List.map_nil] at hstatements herrors
  constructor
  · rw [herrors]
    decide +kernel
  · rw [hstatements]
    decide +kernel

end Program

end UnitScript
