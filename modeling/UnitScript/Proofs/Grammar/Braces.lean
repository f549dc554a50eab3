import UnitScript.Proofs.Grammar.LineByLine
import UnitScript.Token.Lexer

/-!
# Balanced braces

Where the braces in front of the end of the file are balanced, no block is reported as
unclosed, whatever else is wrong with the tokens.  An opening brace may be skipped
without opening a block.  A closing one never is: it closes a block, or it is
complained about where no block is open.  So the blocks that are open are at most as
many as the braces that are still to be closed, and at the end of the file none is left.

* `TokenStream.Closes d` says that the tokens left close at least `d` blocks, and that
  from no place on they open more than they close.
* `Reading.Guarded d` is the invariant where `d` blocks are open: what is left closes
  them, and no unclosed block was kept in the log.  When the log is full, blocks are
  given up, and their complaints are counted but not kept.
* `guarded_turn` is what one turn preserves, `guarded_statements` what a whole reading
  does, and `parse_balanced_braces` the result.
* `unclosed_at_first_end` shows that a closing brace behind the first end of the file
  does not count.
-/

namespace UnitScript

/-- The braces of the tokens are balanced: no front of them closes more blocks than it
opens, and all of them close as many as they open. -/
structure Token.BracesBalanced (tokens : List Token) : Prop where
  opensFirst : ∀ n ≤ tokens.length,
    Token.count .rightBrace (tokens.take n) ≤ Token.count .leftBrace (tokens.take n)
  balanced : Token.count .leftBrace tokens = Token.count .rightBrace tokens

theorem Token.count_append (kind : Token.Kind) (front back : List Token) :
    Token.count kind (front ++ back) = Token.count kind front + Token.count kind back :=
  List.countP_append

theorem Token.count_eq_zero {kind : Token.Kind} {tokens : List Token}
    (h : ∀ token ∈ tokens, token.kind ≠ kind) : Token.count kind tokens = 0 :=
  List.countP_eq_zero.2 fun token htoken => by simpa using h token htoken

/-! ## Braces that are still to be closed -/

namespace TokenStream

/-- The tokens left close at least `d` blocks more than they open, and from no place on
they open more than they close.  The file ends behind them. -/
structure Closes (d : Nat) (s : TokenStream) : Prop where
  inFile : ∀ token ∈ s.rest, token.kind ≠ .endOfFile
  enough : Token.count .leftBrace s.rest + d ≤ Token.count .rightBrace s.rest
  later : ∀ rest, rest <:+ s.rest →
    Token.count .leftBrace rest ≤ Token.count .rightBrace rest

variable {s s' : TokenStream} {d : Nat}

theorem closes_of_balanced (hfile : ∀ token ∈ s.rest, token.kind ≠ .endOfFile)
    (h : Token.BracesBalanced s.rest) : s.Closes 0 := by
  refine ⟨hfile, Nat.le_of_eq h.balanced, ?_⟩
  rintro rest ⟨front, hrest⟩
  have hbalanced := h.balanced
  have hfront := h.opensFirst front.length (by simp [← hrest])
  rw [← hrest, List.take_left] at hfront
  rw [← hrest, Token.count_append, Token.count_append] at hbalanced
  omega

namespace Closes

/-- Moving on leaves nothing open that is not closed later. -/
theorem leads (h : s.Closes d) (hleads : s.Leads s') : s'.Closes 0 := by
  obtain ⟨read, hread⟩ := hleads
  have hsuffix : s'.rest <:+ s.rest := ⟨read, hread.rest.symm⟩
  exact ⟨fun token htoken => h.inFile token (hsuffix.mem htoken), h.later s'.rest hsuffix,
    fun rest hrest => h.later rest (hrest.trans hsuffix)⟩

/-- Where no closing brace is passed over, as many are still to come. -/
theorem stays (h : s.Closes d) (hstays : s.Stays s') : s'.Closes d := by
  refine { h.leads hstays.leads with enough := ?_ }
  obtain ⟨read, hread, hne⟩ := hstays
  have henough := h.enough
  rw [hread.rest, Token.count_append, Token.count_append, Token.count_eq_zero hne] at henough
  omega

theorem mono (h : s.Closes (d + 1)) : s.Closes d :=
  { h with enough := Nat.le_trans (Nat.le_succ _) h.enough }

/-- An opening brace is read, and one more block is open. -/
theorem opens (h : s.Closes d) (hk : s.kind = .leftBrace) : s.advance.Closes (d + 1) := by
  refine { h.leads s.leads_advance with enough := ?_ }
  obtain ⟨token, rest, hrest, htoken⟩ := exists_cons_of_kind hk (by simp)
  have henough := h.enough
  rw [(passes_advance hrest).rest] at henough
  simp only [List.singleton_append, Token.count_cons, htoken, reduceCtorEq, if_true,
    if_false] at henough
  omega

/-- A closing brace is read, and one block less is open. -/
theorem closes (h : s.Closes (d + 1)) (hk : s.kind = .rightBrace) : s.advance.Closes d := by
  refine { h.leads s.leads_advance with enough := ?_ }
  obtain ⟨token, rest, hrest, htoken⟩ := exists_cons_of_kind hk (by simp)
  have henough := h.enough
  rw [(passes_advance hrest).rest] at henough
  simp only [List.singleton_append, Token.count_cons, htoken, reduceCtorEq, if_true,
    if_false] at henough
  omega

/-- No block is open at the end of the file. -/
theorem kind_ne_endOfFile (h : s.Closes (d + 1)) : s.kind ≠ .endOfFile := by
  have henough := h.enough
  unfold kind
  cases hrest : s.rest with
  | nil =>
    rw [hrest] at henough
    exact absurd henough (Nat.not_succ_le_zero _)
  | cons token rest => exact h.inFile token (by rw [hrest]; exact List.mem_cons_self)

end Closes

end TokenStream

/-! ## Logs without unclosed blocks -/

namespace Diagnostics

/-- The log was made from the empty one and keeps no unclosed block. -/
structure NoUnclosed (source : Source) (log : Diagnostics) : Prop where
  made : Extends source ∅ log
  kept : ∀ error ∈ log.errors, error.code ≠ .unclosedBlock

variable {source : Source} {log : Diagnostics}

/-- What is kept of a complaint was kept before, or there was room for it. -/
theorem mem_errors_complain {complaint : Complaint} {error : Diagnostic}
    (h : error ∈ (log.complain source complaint).errors) :
    error ∈ log.errors ∨ error = diagnosed source complaint ∧ log.errors.length < limit := by
  change error ∈ (log.push (diagnosed source complaint)).errors at h
  cases herror : (diagnosed source complaint).isError with
  | false =>
    rw [push_of_warning herror] at h
    exact .inl h
  | true =>
    rw [push_of_error herror] at h
    by_cases hroom : log.errors.length < limit
    · exact (mem_keep h).imp id fun heq => ⟨heq, hroom⟩
    · simp only [keep, if_neg hroom] at h
      exact .inl h

/-- As many errors are kept as the limit allows, once they were found. -/
theorem Extends.limit_le_length (h : Extends source ∅ log) (hlimit : log.atErrorLimit = true) :
    limit ≤ log.errors.length := by
  obtain ⟨complaints, rfl⟩ := h
  rw [complainAll_empty] at hlimit ⊢
  rw [atErrorLimit, decide_eq_true_iff, totalErrors_ofList] at hlimit
  rw [errors_ofList, List.length_take]
  exact Nat.le_min.2 ⟨Nat.le_refl _, hlimit⟩

/-- A complaint about something else is recorded, or there is no room for it. -/
theorem NoUnclosed.complain (h : NoUnclosed source log) {complaint : Complaint}
    (hother : complaint.problem.code ≠ .unclosedBlock ∨ log.atErrorLimit = true) :
    NoUnclosed source (log.complain source complaint) := by
  refine ⟨h.made.trans (.complain log complaint), fun error herror => ?_⟩
  rcases mem_errors_complain herror with hkept | ⟨rfl, hroom⟩
  · exact h.kept error hkept
  · refine hother.resolve_right fun hlimit => ?_
    exact absurd (h.made.limit_le_length hlimit) (Nat.not_le.2 hroom)

end Diagnostics

/-! ## Reading inside of open blocks -/

namespace Reading

variable (source : Source) {d : Nat} {reading : Reading}

/-- With `d` blocks open, what is left closes them, and no unclosed block was kept. -/
structure Guarded (d : Nat) (reading : Reading) : Prop where
  closes : reading.stream.Closes d
  log : reading.log.NoUnclosed source

variable {source}

theorem Guarded.mono (h : reading.Guarded source (d + 1)) : reading.Guarded source d :=
  ⟨h.closes.mono, h.log⟩

theorem Guarded.complain (h : reading.Guarded source d) (problem : Problem)
    (hother : problem.code ≠ .unclosedBlock ∨ reading.log.atErrorLimit = true) (span : Span) :
    (reading.complain source problem span).Guarded source d :=
  ⟨h.closes, h.log.complain hother⟩

theorem Guarded.move (h : reading.Guarded source d) {step : TokenStream → TokenStream}
    (hstep : reading.stream.Stays (step reading.stream)) : (reading.move step).Guarded source d :=
  ⟨h.closes.stays hstep, h.log⟩

theorem guarded_attempt {α : Type} {parse : Parse α}
    (hparse : parse.StaysInside Problem.HasTokenCode)
    (h : reading.Guarded source d) : (reading.attempt source parse).2.Guarded source d := by
  have hread := hparse reading.stream
  unfold attempt
  cases hresult : parse reading.stream with
  | ok value stream =>
    rw [hresult] at hread
    exact ⟨h.closes.stays hread, h.log⟩
  | error complaint stream =>
    rw [hresult] at hread
    have hcode : complaint.problem.code = .unexpectedToken := hread.2
    exact ⟨h.closes.stays hread.1, h.log.complain (.inl (by rw [hcode]; decide))⟩

theorem guarded_endStatement (h : reading.Guarded source d) :
    (reading.endStatement source).Guarded source d := by
  unfold endStatement
  split
  · exact h.move reading.stream.stays_skipNewlines
  · exact h
  · exact h
  · exact (h.complain (.expectedStatementEnd _) (.inl nofun) _).move
      reading.stream.stays_synchronize

section Bodies

variable {body : (levels : Nat) → Reading → List Stmt × Reading}
  (hbody : ∀ d levels (inner : Reading), inner.stream.rest.length < reading.stream.rest.length →
    inner.Guarded source (d + 1) →
    (body levels inner).2.Guarded source (d + 1) ∧ (body levels inner).2.stops true = true)

include hbody

/-- A block that is open when the file ends is not met, and one that is given up because
the log is full is not kept. -/
theorem guarded_block (levels : Nat) (hopen : reading.stream.kind = .leftBrace)
    (h : reading.Guarded source d) : (reading.block source body levels).2.Guarded source d := by
  have hopened : (reading.move .advance).Guarded source (d + 1) := ⟨h.closes.opens hopen, h.log⟩
  cases levels with
  | zero => exact (hopened.complain .deepBlock (.inl (by decide)) reading.stream.span).mono
  | succ levels =>
    have hshorter : (reading.move .advance).stream.rest.length < reading.stream.rest.length :=
      TokenStream.length_advance_lt (by simp [hopen])
    obtain ⟨hread, hstops⟩ := hbody d levels _ hshorter hopened
    simp only [block]
    generalize (body levels (reading.move .advance)).2 = inner at hread hstops
    split
    · next hclose => exact ⟨hread.closes.closes hclose, hread.log⟩
    · next hclose =>
      have hfull : inner.log.atErrorLimit = true := by
        simpa [stops, TokenStream.atEnd, hread.closes.kind_ne_endOfFile, hclose] using hstops
      exact (hread.complain .unclosedBlock (.inr hfull) reading.stream.span).mono

theorem guarded_statement (fuel levels : Nat) (h : reading.Guarded source d) :
    (reading.statement source fuel body levels).2.Guarded source d := by
  unfold statement
  split
  · next hopen => exact guarded_block hbody levels hopen h
  · exact guarded_attempt (Parse.inside_simpleStatement fuel levels) h

/-- A closing brace is complained about only where no block is open. -/
theorem guarded_turn (fuel levels : Nat) (h : reading.Guarded source d)
    (hunmatched : reading.stream.kind = .rightBrace → d = 0) :
    (reading.turn source fuel body levels).2.Guarded source d := by
  have hstatement := guarded_statement hbody fuel levels h
  unfold turn
  split
  · next hclose =>
    obtain rfl := hunmatched hclose
    have hnoted := h.complain .unmatchedBrace (.inl (by decide)) reading.stream.span
    exact ⟨hnoted.closes.leads reading.stream.leads_advance, hnoted.log⟩
  · generalize reading.statement source fuel body levels = result at hstatement
    obtain ⟨_ | statement, after⟩ := result
    · exact hstatement.move after.stream.stays_synchronize
    · exact guarded_endStatement hstatement

end Bodies

theorem Runs.stops {inBlock : Bool} {levels turns : Nat} {found : List Stmt} {after : Reading}
    (h : Runs source inBlock levels turns reading found after) : after.stops inBlock = true := by
  induction h with
  | stop hstop => exact hstop
  | turn _ _ ih => exact ih

/-- Reading leaves as many blocks open as it found. -/
theorem guarded_statements {fuel : Nat} (inBlock : Bool) (levels : Nat) {reading : Reading}
    (hfuel : reading.stream.rest.length < fuel) (hopen : inBlock = false → d = 0)
    (h : reading.Guarded source d) :
    (statements source fuel inBlock levels reading).2.Guarded source d := by
  induction fuel generalizing inBlock levels d reading with
  | zero => exact absurd hfuel (Nat.not_lt_zero _)
  | succ fuel ih =>
    have hskip : (reading.move .skipNewlines).stream.rest.length ≤ reading.stream.rest.length :=
      reading.stream.leads_skipNewlines.length_le
    have hline : (reading.move .skipNewlines).stream.kind ≠ .newline :=
      reading.stream.kind_skipNewlines_ne
    have hhere := h.move reading.stream.stays_skipNewlines
    rw [statements_succ]
    generalize reading.move .skipNewlines = here at hskip hline hhere
    by_cases hstop : here.stops inBlock = true
    · simp only [if_pos hstop]
      exact hhere
    · have hgoes := Bool.eq_false_iff.2 hstop
      have hunmatched : here.stream.kind = .rightBrace → d = 0 := by
        intro hclose
        refine hopen (Bool.eq_false_iff.2 fun hblock => ?_)
        simp [stops, hblock, hclose] at hgoes
      have hturn : (here.turn source (fuel + 1) (statements source fuel true) levels).2.Guarded
          source d := by
        refine guarded_turn (fun d levels inner hinner hguarded => ⟨?_, ?_⟩) _ levels hhere
          hunmatched
        · exact ih true levels (by omega) (by simp) hguarded
        · have hcovers : inner.stream.rest.length < fuel := by omega
          obtain ⟨_, _, hruns⟩ := runs_statements source true levels inner hcovers
          exact hruns.stops
      have hprogress : (here.turn source (fuel + 1) (statements source fuel true)
          levels).2.stream.rest.length < here.stream.rest.length :=
        length_turn_lt (leads_statements source fuel true) (by omega) (not_atEnd_of_stops hgoes)
          hline
      simp only [if_neg hstop]
      exact ih inBlock levels (by omega) hopen hturn

end Reading

/-! ## The result -/

namespace Program

/-- Where braces are balanced, no block is reported as unclosed, whatever else is wrong.
What stands behind the end of the file is not read, so only braces in front of it
count. -/
theorem parse_balanced_braces (source : Source) (tokens : List Token)
    (h : Token.BracesBalanced (tokens.takeWhile fun token => token.kind != .endOfFile)) :
    ∀ error ∈ (parse source tokens).log.errors, error.code ≠ .unclosedBlock := by
  have hfile : ∀ token ∈ (TokenStream.ofTokens tokens).rest, token.kind ≠ .endOfFile := by
    intro token htoken
    have hall := List.all_takeWhile (p := fun token : Token => token.kind != .endOfFile)
      (l := tokens)
    simpa using List.all_eq_true.1 hall token htoken
  have hcloses : (TokenStream.ofTokens tokens).skipNewlines.Closes 0 :=
    (TokenStream.closes_of_balanced hfile h).stays (TokenStream.stays_skipNewlines _)
  have hstart : Reading.Guarded source 0 ⟨(TokenStream.ofTokens tokens).skipNewlines, ∅⟩ :=
    ⟨hcloses, .refl source ∅, nofun⟩
  exact (Reading.guarded_statements false maxNesting (Nat.lt_succ_self _) (fun _ => rfl)
    hstart).log.kept

/-- The second opening brace is skipped with its line.  So the first closing brace closes
the block, and the last one is unmatched. -/
theorem parse_balanced_braces_skipped :
    let tokens : List Token :=
      [.leftBrace, .identifier "x", .assign, .leftBrace, .newline, .rightBrace, .newline,
        .identifier "y", .rightBrace, .endOfFile].map (⟨·, .point .origin⟩)
    let errors := (parse ⟨"s", ""⟩ tokens).log.errors
    Token.BracesBalanced (tokens.takeWhile fun token => token.kind != .endOfFile) ∧
      errors.length = 2 ∧ ∀ error ∈ errors, error.code ≠ .unclosedBlock := by
  intro tokens errors
  have hbraces : Token.BracesBalanced (tokens.takeWhile fun token => token.kind != .endOfFile) :=
    ⟨by decide, by decide⟩
  exact ⟨hbraces, by decide +kernel, parse_balanced_braces ⟨"s", ""⟩ tokens hbraces⟩

/-- Two lexed texts, one behind the other: a block is opened in front of the first end of
the file and closed behind it.  All braces are balanced, but the list is read like the
first text alone, so the block is reported. -/
theorem unclosed_at_first_end :
    let source : Source := ⟨"test.metra", "\x7b"⟩
    let later : Source := ⟨"test.metra", "\x7d"⟩
    let tokens : List Token := source.lex.tokens ++ later.lex.tokens
    tokens.map (·.kind) = [.leftBrace, .endOfFile, .rightBrace, .endOfFile] ∧
      Token.BracesBalanced tokens ∧
      (parse source tokens).log = (parse source source.lex.tokens).log ∧
      ¬ ∀ error ∈ (parse source tokens).log.errors, error.code ≠ .unclosedBlock := by
  intro source later tokens
  have hbraces : Token.BracesBalanced tokens := ⟨by decide +kernel, by decide +kernel⟩
  exact ⟨by decide +kernel, hbraces, by decide +kernel, by decide +kernel⟩

end Program

end UnitScript
