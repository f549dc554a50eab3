import UnitScript.Proofs.Grammar.Parallel

/-!
# Parsing terminates

Statements are read in turns.  A turn that does not stop reads at least one token,
also where a statement fails at its first token, where a closing brace closes
nothing, and where blocks nest too deep.  So there are at most as many turns as
tokens, and a fuel of one more than the tokens left is never used up.

* `TokenStream.StandsAt` is the position in a token list, `TokenStream.LooksAt` what
  is looked at there.
* `Reading.turn` is one turn, `length_turn_lt` its progress and `turn_congr` that it
  asks for nested statements with fewer tokens left.
* `Reading.Runs` is a run of turns up to the end, without fuel; `runs_statements` is
  that `statements` makes one.
* `parse_terminates` is the result.
-/

namespace UnitScript

/-! ## Positions in a token list -/

namespace TokenStream

/-- A token list with an end of the file behind it, unless it has one. -/
def closed (tokens : List Token) : List Token :=
  match tokens.getLast? with
  | none => [⟨.endOfFile, .point .origin⟩]
  | some token =>
      if token.kind = .endOfFile then tokens else tokens ++ [⟨.endOfFile, token.span⟩]

/-- Reading `tokens` has passed over the first `position` of them. -/
def StandsAt (tokens : List Token) (position : Nat) (s : TokenStream) : Prop :=
  ∃ read, (ofTokens tokens).Passes read s ∧ read.length = position

/-- At a position, only tokens of the closed list are looked at: the token there, the
one behind it and the one in front of it. -/
structure LooksAt (tokens : List Token) (position : Nat) (s : TokenStream) : Prop where
  position_le : position ≤ tokens.length
  current : (closed tokens)[position]? = some ⟨s.kind, s.span⟩
  second : s.kind ≠ .endOfFile →
    ∃ token, (closed tokens)[position + 1]? = some token ∧ token.kind = s.secondKind
  previous : position ≠ 0 →
    ∃ token, (closed tokens)[position - 1]? = some token ∧ token.span = s.previous

variable {tokens : List Token} {s s' : TokenStream} {position : Nat}

theorem standsAt_ofTokens (tokens : List Token) : StandsAt tokens 0 (ofTokens tokens) :=
  ⟨[], .refl _, rfl⟩

theorem StandsAt.leads (h : StandsAt tokens position s) (hleads : s.Leads s') :
    ∃ next, position ≤ next ∧ StandsAt tokens next s' := by
  obtain ⟨read, hread, rfl⟩ := h
  obtain ⟨more, hmore⟩ := hleads
  refine ⟨_, ?_, read ++ more, hread.trans hmore, rfl⟩
  rw [List.length_append]
  exact Nat.le_add_right _ _

/-- Fewer tokens left is a later position. -/
theorem StandsAt.lt_of_length_lt {next : Nat} (h : StandsAt tokens position s)
    (h' : StandsAt tokens next s') (hlength : s'.rest.length < s.rest.length) :
    position < next := by
  obtain ⟨read, hread, rfl⟩ := h
  obtain ⟨more, hmore, rfl⟩ := h'
  have hleft := hread.length
  have hleft' := hmore.length
  omega

/-- Skipping reads a token, unless one was read before. -/
theorem Leads.length_synchronize_lt (h : s.Leads s') (hinside : isInsideStatement s.kind = true) :
    s'.synchronize.rest.length < s.rest.length := by
  have hskip := (leads_skipNewlines (s'.skipWhile isInsideStatement)).length_le
  refine Nat.lt_of_le_of_lt hskip ?_
  obtain ⟨read, hread⟩ := h
  cases read with
  | cons token read =>
    have hless := (leads_skipWhile isInsideStatement s').length_le
    rw [hread.length, List.length_cons]
    omega
  | nil =>
    have hrest : s'.rest = s.rest := hread.rest.symm
    show (s'.rest.dropWhile fun token => isInsideStatement token.kind).length < _
    rw [hrest]
    have hend : s.kind ≠ .endOfFile := by
      intro hend
      rw [hend] at hinside
      cases hinside
    obtain ⟨token, rest, hcons, hkind⟩ := exists_cons_of_kind rfl hend
    rw [hcons, List.dropWhile_cons, if_pos (by rwa [hkind])]
    exact Nat.lt_succ_of_le (List.dropWhile_suffix _).length_le

/-- The closed list goes on with the end of the file behind what is read. -/
theorem closed_eq (tokens : List Token) :
    ∃ more, closed tokens =
      (ofTokens tokens).rest ++ ⟨.endOfFile, (ofTokens tokens).finish⟩ :: more := by
  cases hfind : tokens.find? fun token => token.kind == .endOfFile with
  | some final =>
    -- reading stops in front of the first end of the file
    obtain ⟨hfinal, front, back, rfl, hfront⟩ := List.find?_eq_some_iff_append.1 hfind
    have hkind : final.kind = .endOfFile := by simpa using hfinal
    have hrest : (ofTokens (front ++ final :: back)).rest = front := by
      have hfront : ∀ token ∈ front, (token.kind != .endOfFile) = true := by simpa using hfront
      simp only [ofTokens]
      rw [List.takeWhile_append_of_pos hfront, List.takeWhile_cons_of_neg (by simp [hkind]),
        List.append_nil]
    have hfinish : (ofTokens (front ++ final :: back)).finish = final.span := by
      simp only [ofTokens, hfind]
    have hfile : (⟨.endOfFile, final.span⟩ : Token) = final := by rw [← hkind]
    rw [hrest, hfinish, hfile]
    unfold closed
    split
    · next h => simp at h
    · split
      · exact ⟨back, rfl⟩
      · exact ⟨back ++ _, by rw [List.append_assoc]; rfl⟩
  | none =>
    have hnone : ∀ token ∈ tokens, token.kind ≠ .endOfFile := by simpa using hfind
    have hrest : (ofTokens tokens).rest = tokens := by
      simp only [ofTokens]
      rw [← List.append_nil tokens, List.takeWhile_append_of_pos (by simpa using hnone)]
      rfl
    refine ⟨[], ?_⟩
    rw [hrest]
    simp only [closed, ofTokens, hfind]
    cases hlast : tokens.getLast? with
    | none =>
      rw [List.getLast?_eq_none_iff.1 hlast]
      rfl
    | some token =>
      simp only [if_neg (hnone token (List.mem_of_getLast? hlast))]

theorem StandsAt.looksAt (h : StandsAt tokens position s) : LooksAt tokens position s := by
  obtain ⟨read, hread, rfl⟩ := h
  obtain ⟨more, hclosed⟩ := closed_eq tokens
  have hrest := hread.rest
  have hfinish := hread.finish
  rw [hrest, List.append_assoc, ← hfinish] at hclosed
  refine ⟨?_, ?_, ?_, ?_⟩
  · have hle : (ofTokens tokens).rest.length ≤ tokens.length :=
      (List.takeWhile_prefix _).length_le
    rw [hread.length] at hle
    omega
  · rw [hclosed, List.getElem?_append_right (Nat.le_refl _), Nat.sub_self]
    cases h : s.rest <;> simp [kind, span, h]
  · intro hend
    obtain ⟨token, later, hcons, _⟩ := exists_cons_of_kind rfl hend
    rw [hclosed, List.getElem?_append_right (Nat.le_add_right _ 1), Nat.add_sub_cancel_left,
      hcons]
    cases later <;> simp [secondKind, hcons]
  · intro hne
    obtain ⟨token, hlast⟩ : ∃ token, read.getLast? = some token := by
      cases h : read.getLast? with
      | none =>
        rw [List.getLast?_eq_none_iff.1 h] at hne
        exact absurd rfl hne
      | some token => exact ⟨token, rfl⟩
    refine ⟨token, ?_, ?_⟩
    · rw [hclosed, List.getElem?_append_left (by omega), ← List.getLast?_eq_getElem?, hlast]
    · rw [hread.previous, hlast]
      rfl

end TokenStream

/-! ## Turns -/

namespace Reading

/-- Whether reading statements stops. -/
def stops (inBlock : Bool) (reading : Reading) : Bool :=
  reading.stream.atEnd || (inBlock && reading.stream.kind == .rightBrace)
    || reading.log.atErrorLimit

/-- One turn of reading statements, where reading does not stop: a statement that is
found, and what is left behind its end. -/
def turn (source : Source) (fuel : Nat) (body : (levels : Nat) → Reading → List Stmt × Reading)
    (levels : Nat) (reading : Reading) : Option Stmt × Reading :=
  if reading.stream.kind = .rightBrace then
    (none, (reading.complain source .unmatchedBrace reading.stream.span).move .advance)
  else
    match reading.statement source fuel body levels with
    | (some statement, after) => (some statement, after.endStatement source)
    | (none, after) => (none, after.move .synchronize)

/-- Statements are read in turns. -/
theorem statements_succ (source : Source) (fuel : Nat) (inBlock : Bool) (levels : Nat)
    (reading : Reading) :
    statements source (fuel + 1) inBlock levels reading =
      let here := reading.move .skipNewlines
      if here.stops inBlock then ([], here)
      else
        let next := here.turn source (fuel + 1) (statements source fuel true) levels
        let later := statements source fuel inBlock levels next.2
        (next.1.toList ++ later.1, later.2) := by
  conv => lhs; unfold statements
  simp only [turn]
  generalize reading.move .skipNewlines = here
  by_cases hstop : here.stops inBlock = true
  · rw [if_pos hstop]
    exact if_pos hstop
  · rw [if_neg hstop]
    refine (if_neg hstop).trans ?_
    split
    · rfl
    · rcases here.statement source (fuel + 1) (statements source fuel true) levels with
        ⟨_ | statement, after⟩ <;> rfl

section Turns

variable {source : Source} {inBlock : Bool} {fuel levels : Nat} {reading : Reading}
  {body : (levels : Nat) → Reading → List Stmt × Reading}

/-- Nested statements are asked for behind an opening brace, with fewer tokens left. -/
theorem turn_congr {fuel' : Nat} {body' : (levels : Nat) → Reading → List Stmt × Reading}
    (hbody : ∀ levels (inner : Reading),
      inner.stream.rest.length < reading.stream.rest.length →
        body levels inner = body' levels inner)
    (hf : reading.stream.rest.length ≤ fuel) (hg : reading.stream.rest.length ≤ fuel') :
    reading.turn source fuel body levels = reading.turn source fuel' body' levels := by
  have hstatement :
      reading.statement source fuel body levels = reading.statement source fuel' body' levels := by
    unfold statement
    split
    · next hopen =>
      cases levels with
      | zero => rfl
      | succ levels =>
        have hshorter : (reading.move .advance).stream.rest.length < reading.stream.rest.length :=
          TokenStream.length_advance_lt (by rw [hopen]; nofun)
        simp only [block, hbody levels _ hshorter]
    · rw [attempt, attempt, Parse.simpleStatement_fuel levels hf hg]
  rw [turn, turn, hstatement]

theorem leads_turn
    (hbody : ∀ levels (inner : Reading), inner.stream.Leads (body levels inner).2.stream) :
    reading.stream.Leads (reading.turn source fuel body levels).2.stream := by
  unfold turn
  split
  · exact reading.stream.leads_advance
  · refine (leads_statement source hbody fuel levels reading).trans ?_
    rcases reading.statement source fuel body levels with ⟨_ | statement, after⟩
    · exact after.stream.leads_synchronize
    · exact leads_endStatement source after

/-- A statement that is found is never empty. -/
theorem length_statement_lt
    (hbody : ∀ levels (inner : Reading), inner.stream.Leads (body levels inner).2.stream)
    (hfuel : reading.stream.rest.length ≤ fuel) {statement : Stmt} {after : Reading}
    (h : reading.statement source fuel body levels = (some statement, after)) :
    after.stream.rest.length < reading.stream.rest.length := by
  unfold Reading.statement at h
  split at h
  · next hopen =>
    have hleads := leads_block source hbody levels reading
    rw [h] at hleads
    exact Nat.lt_of_le_of_lt hleads.length_le
      (TokenStream.length_advance_lt (by rw [hopen]; nofun))
  · unfold attempt at h
    split at h
    · next value stream hresult =>
      cases h
      exact Parse.length_lt_of_simpleStatement levels hfuel hresult
    · cases h

/-- A turn that starts at a token other than a newline reads a token.  Where no
statement is found, skipping to the next one does. -/
theorem length_turn_lt
    (hbody : ∀ levels (inner : Reading), inner.stream.Leads (body levels inner).2.stream)
    (hfuel : reading.stream.rest.length ≤ fuel) (hend : reading.stream.kind ≠ .endOfFile)
    (hline : reading.stream.kind ≠ .newline) :
    (reading.turn source fuel body levels).2.stream.rest.length < reading.stream.rest.length := by
  unfold turn
  split
  · exact TokenStream.length_advance_lt hend
  · next hbrace =>
    cases hresult : reading.statement source fuel body levels with
    | mk found after =>
      cases found with
      | some statement =>
        exact Nat.lt_of_le_of_lt (leads_endStatement source after).length_le
          (length_statement_lt hbody hfuel hresult)
      | none =>
        have hleads := leads_statement source hbody fuel levels reading
        rw [hresult] at hleads
        have hinside : TokenStream.isInsideStatement reading.stream.kind = true := by
          simp [TokenStream.isInsideStatement, hend, hline, hbrace]
        exact hleads.length_synchronize_lt hinside

theorem not_atEnd_of_stops (h : reading.stops inBlock = false) :
    reading.stream.kind ≠ .endOfFile := by
  intro hend
  simp [stops, TokenStream.atEnd, hend] at h

end Turns

/-! ## Runs -/

variable (source : Source)

/-- The fuel of a whole reading does not matter, as long as it covers the tokens that
are left. -/
theorem statements_fuel {fuel fuel' : Nat} (inBlock : Bool) (levels : Nat) (reading : Reading)
    (h : reading.stream.rest.length < fuel) (h' : reading.stream.rest.length < fuel') :
    statements source fuel inBlock levels reading =
      statements source fuel' inBlock levels reading := by
  induction fuel generalizing fuel' inBlock levels reading with
  | zero => exact absurd h (Nat.not_lt_zero _)
  | succ fuel ih =>
    obtain ⟨fuel', rfl⟩ : ∃ k, fuel' = k + 1 := Nat.exists_eq_add_one_of_ne_zero (by omega)
    have hskip : (reading.move .skipNewlines).stream.rest.length ≤ reading.stream.rest.length :=
      reading.stream.leads_skipNewlines.length_le
    have hline : (reading.move .skipNewlines).stream.kind ≠ .newline :=
      reading.stream.kind_skipNewlines_ne
    rw [statements_succ, statements_succ]
    generalize reading.move .skipNewlines = here at hskip hline
    by_cases hstop : here.stops inBlock = true
    · simp only [if_pos hstop]
    · have hturn : here.turn source (fuel + 1) (statements source fuel true) levels =
          here.turn source (fuel' + 1) (statements source fuel' true) levels :=
        turn_congr (fun levels inner hinner => ih true levels inner (by omega) (by omega))
          (by omega) (by omega)
      let next := (here.turn source (fuel' + 1) (statements source fuel' true) levels).2
      have hprogress : next.stream.rest.length < here.stream.rest.length :=
        length_turn_lt (leads_statements source fuel' true) (by omega)
          (not_atEnd_of_stops (Bool.eq_false_iff.2 hstop)) hline
      have hlater : statements source fuel inBlock levels next =
          statements source fuel' inBlock levels next :=
        ih inBlock levels next (by omega) (by omega)
      simp only [if_neg hstop, hturn]
      rw [hlater]

/-- Reads statements, with one more than the tokens left as fuel. -/
def readAll (inBlock : Bool) (levels : Nat) (reading : Reading) : List Stmt × Reading :=
  statements source (reading.stream.rest.length + 1) inBlock levels reading

/-- A turn with as much fuel as it needs. -/
def fullTurn (levels : Nat) (reading : Reading) : Option Stmt × Reading :=
  reading.turn source reading.stream.rest.length (readAll source true) levels

/-- Statements are read in a number of turns, up to where reading stops.  There is no
fuel, so turns without an end would not be a run. -/
inductive Runs (inBlock : Bool) (levels : Nat) :
    (turns : Nat) → Reading → List Stmt → Reading → Prop
  | stop {reading : Reading} (h : (reading.move .skipNewlines).stops inBlock = true) :
      Runs inBlock levels 0 reading [] (reading.move .skipNewlines)
  | turn {reading after : Reading} {turns : Nat} {later : List Stmt}
      (h : (reading.move .skipNewlines).stops inBlock = false)
      (hlater : Runs inBlock levels turns
        ((reading.move .skipNewlines).fullTurn source levels).2 later after) :
      Runs inBlock levels (turns + 1) reading
        (((reading.move .skipNewlines).fullTurn source levels).1.toList ++ later) after

theorem leads_readAll (inBlock : Bool) (levels : Nat) (reading : Reading) :
    reading.stream.Leads (readAll source inBlock levels reading).2.stream :=
  leads_statements source _ inBlock levels reading

/-- A turn of a run reads a token. -/
theorem length_fullTurn_lt {inBlock : Bool} (levels : Nat) {reading : Reading}
    (h : (reading.move .skipNewlines).stops inBlock = false) :
    ((reading.move .skipNewlines).fullTurn source levels).2.stream.rest.length
      < reading.stream.rest.length := by
  have hskip := reading.stream.leads_skipNewlines.length_le
  refine Nat.lt_of_lt_of_le (length_turn_lt (leads_readAll source true) (Nat.le_refl _)
    (not_atEnd_of_stops h) ?_) hskip
  exact TokenStream.kind_skipNewlines_ne reading.stream

/-- With enough fuel, statements are read in a run. -/
theorem runs_statements {fuel : Nat} (inBlock : Bool) (levels : Nat) (reading : Reading)
    (h : reading.stream.rest.length < fuel) :
    ∃ turns ≤ reading.stream.rest.length, Runs source inBlock levels turns reading
      (statements source fuel inBlock levels reading).1
      (statements source fuel inBlock levels reading).2 := by
  induction fuel generalizing reading with
  | zero => exact absurd h (Nat.not_lt_zero _)
  | succ fuel ih =>
    rw [statements_succ]
    by_cases hstop : (reading.move .skipNewlines).stops inBlock = true
    · simp only [if_pos hstop]
      exact ⟨0, Nat.zero_le _, .stop hstop⟩
    · have hgoes := Bool.eq_false_iff.2 hstop
      have hskip : (reading.move .skipNewlines).stream.rest.length ≤ reading.stream.rest.length :=
        reading.stream.leads_skipNewlines.length_le
      have hturn : (reading.move .skipNewlines).turn source (fuel + 1)
          (statements source fuel true) levels =
          (reading.move .skipNewlines).fullTurn source levels :=
        turn_congr (fun levels inner hinner => statements_fuel source true levels inner (by omega)
          (Nat.lt_succ_self _)) (by omega) (Nat.le_refl _)
      have hprogress := length_fullTurn_lt source levels hgoes
      simp only [if_neg hstop, hturn]
      obtain ⟨turns, hturns, hruns⟩ :=
        ih ((reading.move .skipNewlines).fullTurn source levels).2 (by omega)
      exact ⟨turns + 1, by omega, .turn hgoes hruns⟩

end Reading

/-! ## The result -/

open TokenStream in
/-- Every token list is parsed in a run of at most as many turns as it has tokens. -/
theorem Program.parse_terminates (source : Source) (tokens : List Token) :
    -- no position is behind the tokens, and no token outside of the list is looked at
    (∀ position s, StandsAt tokens position s → LooksAt tokens position s) ∧
    -- nothing moves back, also if it fails
    (∀ position s, StandsAt tokens position s → ∀ fuel levels,
      ∀ s' ∈ [s.advance, s.skipNewlines, s.synchronize, Parse.after (Parse.unitExpr fuel s),
        Parse.after (Parse.expression fuel levels s),
        Parse.after (Parse.simpleStatement fuel levels s)],
      ∃ next, position ≤ next ∧ StandsAt tokens next s') ∧
    -- a turn that is made moves on, inside and outside of blocks and at every level
    (∀ position inBlock levels (reading : Reading), StandsAt tokens position reading.stream →
      (reading.move .skipNewlines).stops inBlock = false →
      ∃ next, position < next ∧
        StandsAt tokens next ((reading.move .skipNewlines).fullTurn source levels).2.stream) ∧
    -- the fuel of units and expressions does not end before the tokens do
    (∀ (s : TokenStream) fuel fuel', s.rest.length ≤ fuel → s.rest.length ≤ fuel' →
      (∀ last, Parse.Fails .expectedUnit last →
        Parse.unitExprFrom last fuel s = Parse.unitExpr fuel' s) ∧
      ∀ last, (∀ levels, Parse.Fails .expectedExpression (last levels)) → ∀ levels,
        Parse.expressionFrom last fuel levels s = Parse.expression fuel' levels s) ∧
    -- the fuel of statements does not end before their run does
    (∀ fuel inBlock levels (reading : Reading), reading.stream.rest.length < fuel →
      ∃ turns ≤ reading.stream.rest.length, Reading.Runs source inBlock levels turns reading
        (Reading.statements source fuel inBlock levels reading).1
        (Reading.statements source fuel inBlock levels reading).2) ∧
    ∃ turns ≤ tokens.length, ∃ found after position,
      Reading.Runs source false maxNesting turns ⟨(ofTokens tokens).skipNewlines, ∅⟩ found after ∧
      StandsAt tokens position after.stream ∧ (parse source tokens).log = after.log ∧
      ∀ program, (parse source tokens).program = some program → program.statements = found := by
  refine ⟨fun _ _ => StandsAt.looksAt, ?_, ?_, ?_, ?_, ?_⟩
  · intro position s h fuel levels s' hs'
    refine h.leads ?_
    simp only [List.mem_cons, List.not_mem_nil, or_false] at hs'
    rcases hs' with rfl | rfl | rfl | rfl | rfl | rfl
    · exact s.leads_advance
    · exact s.leads_skipNewlines
    · exact s.leads_synchronize
    · exact Parse.forward_unitExpr fuel s
    · exact Parse.forward_expression fuel levels s
    · exact Parse.forward_simpleStatement fuel levels s
  · intro position inBlock levels reading h hgoes
    have hleads : (reading.move .skipNewlines).stream.Leads
        ((reading.move .skipNewlines).fullTurn source levels).2.stream :=
      Reading.leads_turn (Reading.leads_readAll source true)
    obtain ⟨next, _, hnext⟩ := h.leads (reading.stream.leads_skipNewlines.trans hleads)
    exact ⟨next, h.lt_of_length_lt hnext (Reading.length_fullTurn_lt source levels hgoes), hnext⟩
  · intro s fuel fuel' hf hg
    exact ⟨fun last hlast => Parse.unitExprFrom_fuel hf hg hlast,
      fun last hlast levels => Parse.expressionFrom_fuel levels hf hg hlast⟩
  · intro fuel inBlock levels reading h
    exact Reading.runs_statements source inBlock levels reading h
  · have hleads := (ofTokens tokens).leads_skipNewlines
    have hlength : (ofTokens tokens).rest.length ≤ tokens.length :=
      (List.takeWhile_prefix _).length_le
    let start : Reading := ⟨(ofTokens tokens).skipNewlines, ∅⟩
    obtain ⟨turns, hturns, hruns⟩ :=
      Reading.runs_statements source false maxNesting start (Nat.lt_succ_self _)
    obtain ⟨position, _, hstands⟩ := (standsAt_ofTokens tokens).leads
      (hleads.trans (Reading.leads_readAll source false maxNesting start))
    refine ⟨turns, ?_, _, _, position, hruns, hstands, rfl, ?_⟩
    · exact Nat.le_trans hturns (Nat.le_trans hleads.length_le hlength)
    · intro program h
      unfold parse at h
      simp only at h
      split at h
      · cases h
      · cases h
        rfl

end UnitScript
