import UnitScript.Proofs.Token.Positions

/-!
# What tokens are read from

The first character of a token decides of what kind it can be.  A character
literal that is not complained about holds one character or one escape sequence
between its quotes.  There is one exception: two quotes with nothing in between
are read, without a complaint, as the null character.

* `Cursor.Starts` relates the first character of a token to its kind;
  `starts_scan` says that every token starts like that.
* `Cursor.Denotes` is what a character literal may hold, and
  `scanCharacter_of_clean` what a literal without complaints does hold.
* `Token.Quotes` ties a literal to its place in the text; `character_literals` is
  the result for a source without errors, and `empty_literal_unreported` the
  exception.
-/

namespace UnitScript

open Text

namespace Cursor

/-! ## First characters -/

/-- A token of this kind can start with this character. -/
inductive Starts : Char → Token.Kind → Prop
  | newline : Starts '\n' .newline
  | sign {c : Char} {kind : Token.Kind} (hsign : sign? c = some kind) : Starts c kind
  | assign : Starts '=' .assign
  | equal : Starts '=' .equal
  | notEqual : Starts '!' .notEqual
  | integer {c : Char} {n : Nat} (hdigit : c.isDigit = true) (hrange : n ≤ Number.greatest) :
      Starts c (.integer n)
  | real {c : Char} {x : Float} (hdigit : c.isDigit = true) : Starts c (.real x)
  | keyword {c : Char} {word : Keyword} (hstart : startsWord c = true) : Starts c (.keyword word)
  | identifier {c : Char} {name : String} (hstart : startsWord c = true) :
      Starts c (.identifier name)
  | string {text : String} : Starts '"' (.string text)
  | character {value : Char} : Starts '\'' (.character value)

theorem starts_scanNumber {c : Char} {cursor : Cursor} (hdigit : c.isDigit = true)
    {kind : Token.Kind} (h : cursor.scanNumber.kind = some kind) : Starts c kind := by
  rw [scanNumber_eq] at h
  split at h
  · cases h
    exact .real hdigit
  · unfold scanInteger at h
    simp only at h
    split at h
    · next hrange =>
        cases h
        obtain ⟨_, hmost⟩ := of_decide_eq_true hrange
        exact .integer hdigit hmost
    · cases h
      exact .integer hdigit (by decide)

theorem starts_scanWord {c : Char} {cursor : Cursor} (hstart : startsWord c = true)
    {kind : Token.Kind} (h : cursor.scanWord.kind = some kind) : Starts c kind := by
  cases h
  unfold Token.Kind.ofWord
  split
  · exact .keyword hstart
  · exact .identifier hstart

theorem scanCharacter_kind (cursor : Cursor) :
    ∃ value, cursor.scanCharacter.kind = some (.character value) := by
  unfold scanCharacter
  simp only
  split <;> exact ⟨_, rfl⟩

/-- Every token starts with a character that can start it. -/
theorem starts_scan {c : Char} {cursor : Cursor} {kind : Token.Kind}
    (h : (cursor.scan c).kind = some kind) : Starts c kind := by
  unfold scan at h
  split at h
  · next hc =>
      subst hc
      cases h
      exact .newline
  split at h
  · next hsign =>
      cases h
      exact .sign hsign
  split at h
  · next hc =>
      subst hc
      split at h
      · cases h
        exact .equal
      · cases h
        exact .assign
  split at h
  · next hbang =>
      cases h
      obtain rfl : c = '!' := of_decide_eq_true (Bool.and_eq_true_iff.1 hbang).1
      exact .notEqual
  split at h
  · next hdigit => exact starts_scanNumber hdigit h
  split at h
  · next hstart => exact starts_scanWord hstart h
  split at h
  · next hc =>
      subst hc
      cases h
      exact .string
  split at h
  · next hc =>
      subst hc
      obtain ⟨value, hvalue⟩ := cursor.scanCharacter_kind
      rw [hvalue] at h
      cases h
      exact .character
  · cases h

/-- What a sign can be. -/
theorem sign?_mem {c : Char} {kind : Token.Kind} (h : sign? c = some kind) :
    kind ∈ [.plus, .minus, .star, .slash, .caret, .leftParen, .rightParen, .leftBracket,
      .rightBracket, .leftBrace, .rightBrace] := by
  unfold sign? at h
  split at h <;> cases h <;> decide

section Kinds

variable {c : Char}

/-- Only a single quote starts a character literal. -/
theorem Starts.quote {value : Char} (h : Starts c (.character value)) : c = '\'' := by
  cases h with
  | sign hsign => exact absurd (sign?_mem hsign) (by simp)
  | character => rfl

/-- Only a newline starts a newline. -/
theorem Starts.line (h : Starts c .newline) : c = '\n' := by
  cases h with
  | newline => rfl
  | sign hsign => exact absurd (sign?_mem hsign) (by simp)

/-- The integers that are read are script integers. -/
theorem Starts.range {n : Nat} (h : Starts c (.integer n)) : n ≤ Number.greatest := by
  cases h with
  | sign hsign => exact absurd (sign?_mem hsign) (by simp)
  | integer _ hrange => exact hrange

/-- No character starts the end of the file. -/
theorem Starts.ne_endOfFile {kind : Token.Kind} (h : Starts c kind) : kind ≠ .endOfFile := by
  rintro rfl
  cases h with
  | sign hsign => exact absurd (sign?_mem hsign) (by simp)

end Kinds

/-! ## Between single quotes -/

/-- The escape sequences of a character literal: the letter behind the backslash,
and what it stands for. -/
def escapes : List (Char × Char) :=
  [('n', '\n'), ('t', '\t'), ('r', '\r'), ('\\', '\\'), ('\'', '\'')]

theorem mem_escapes {letter value : Char} (h : escape? '\'' letter = some value) :
    (letter, value) ∈ escapes := by
  have hmember {known meaning : Char} (hknown : (known, meaning) ∈ escapes)
      (hletter : letter = known) (hvalue : some meaning = some value) :
      (letter, value) ∈ escapes := by
    cases hvalue
    rwa [hletter]
  unfold escape? at h
  split at h
  · next hletter => exact hmember (by decide) hletter h
  split at h
  · next hletter => exact hmember (by decide) hletter h
  split at h
  · next hletter => exact hmember (by decide) hletter h
  split at h
  · next hletter => exact hmember (by decide) hletter h
  split at h
  · next hletter => exact hmember (by decide) hletter h
  · cases h

/-- What may stand between single quotes, and the character it stands for. -/
inductive Denotes : List Char → Char → Prop
  | plain {c : Char} (hquote : c ≠ '\'') (hbackslash : c ≠ '\\') (hnewline : c ≠ '\n') :
      Denotes [c] c
  | escape {letter value : Char} (h : (letter, value) ∈ escapes) : Denotes ['\\', letter] value

/-- An escape sequence that is not complained about is one of the list, or only a
backslash at the end of its line. -/
theorem scanEscape_of_clean {rest : List Char} {cursor : Cursor}
    (hrest : cursor.rest = '\\' :: rest) (hclean : (scanEscape '\'' cursor).2.1 = []) :
    (∃ body value, Denotes body value ∧ (scanEscape '\'' cursor).1 = some value ∧
        Passes body 0 cursor (scanEscape '\'' cursor).2.2) ∨
      (scanEscape '\'' cursor).2.2.closeQuote? = none := by
  have hbackslash := passes_next hrest (by decide)
  unfold scanEscape at hclean ⊢
  simp only at hclean ⊢
  split at hclean
  · next hend => exact .inr (by rw [closeQuote?, hend])
  · next letter more hmore =>
      split at hclean
      · next hline =>
          refine .inr ?_
          rw [if_pos hline, closeQuote?, hmore, hline]
          rfl
      · next hline =>
          rw [if_neg hline]
          split at hclean
          · next value hescape =>
              exact .inl ⟨_, value, .escape (mem_escapes hescape), rfl,
                hbackslash.trans (passes_next hmore hline)⟩
          · cases hclean

/-- Between the quotes of a literal without complaints stands what denotes its
character, or nothing. -/
theorem scanCharacterBody_of_clean {cursor : Cursor} (hclean : cursor.scanCharacterBody.2.1 = []) :
    (∃ body value, Denotes body value ∧ cursor.scanCharacterBody.1 = some value ∧
        Passes body 0 cursor cursor.scanCharacterBody.2.2) ∨
      (cursor.scanCharacterBody.1 = none ∧ cursor.scanCharacterBody.2.2 = cursor) ∨
      cursor.scanCharacterBody.2.2.closeQuote? = none := by
  unfold scanCharacterBody at hclean ⊢
  split at hclean
  · exact .inr (.inl ⟨rfl, rfl⟩)
  · next c rest hrest =>
      split at hclean
      · next hbackslash =>
          subst hbackslash
          rw [if_pos rfl]
          exact (scanEscape_of_clean hrest hclean).imp id .inr
      · next hbackslash =>
          rw [if_neg hbackslash]
          split
          · exact .inr (.inl ⟨rfl, rfl⟩)
          · next hplain =>
              simp only [Bool.or_eq_true, decide_eq_true_eq, not_or] at hplain
              exact .inl ⟨[c], c, .plain hplain.2 hbackslash hplain.1, rfl,
                passes_next hrest hplain.1⟩

/-- A literal without complaints is closed behind what denotes its character, or
right behind its opening quote. -/
theorem scanCharacter_of_clean {rest : List Char} {cursor : Cursor}
    (hrest : cursor.rest = '\'' :: rest) (hclean : cursor.scanCharacter.complaints = []) :
    ∃ body value, cursor.scanCharacter.kind = some (.character value) ∧
      Passes (['\''] ++ body ++ ['\'']) 0 cursor cursor.scanCharacter.cursor ∧
      (Denotes body value ∨ body = [] ∧ value = '\x00') := by
  have hquote := passes_next hrest (by decide)
  have hbody := @scanCharacterBody_of_clean cursor.next
  unfold scanCharacter at hclean ⊢
  simp only at hclean ⊢
  generalize cursor.next.scanCharacterBody = result at hbody hclean ⊢
  obtain ⟨value, complaints, behind⟩ := result
  simp only at hbody hclean ⊢
  split at hclean
  · next closed hclosed =>
      have hclose := passes_closeQuote? hclosed
      rcases hbody hclean with ⟨body, c, hdenotes, rfl, hpasses⟩ | ⟨rfl, rfl⟩ | hopen
      · exact ⟨body, c, rfl, (hquote.trans hpasses).trans hclose, .inl hdenotes⟩
      · exact ⟨[], '\x00', rfl, hquote.trans hclose, .inr ⟨rfl, rfl⟩⟩
      · rw [hopen] at hclosed
        cases hclosed
  · exact absurd hclean (by simp)

end Cursor

/-! ## Literals of a text -/

/-- The span goes from one single quote of the text to another, with `body` in
between. -/
def Token.Quotes (text : List Char) (token : Token) (body : List Char) : Prop :=
  ∃ front back, text = front ++ (['\''] ++ body ++ ['\'']) ++ back ∧
    token.span = ⟨.behind front, .behind (front ++ (['\''] ++ body))⟩

namespace Cursor

variable {text before : List Char} {cursor : Cursor}

/-- The span of what is passed over ends where its last character stands. -/
theorem Passes.spanFrom_eq {piece : List Char} {c : Char} {after : Cursor}
    (h : Passes (piece ++ [c]) 0 cursor after) (hposition : cursor.position = .behind before) :
    after.spanFrom cursor.position = ⟨.behind before, .behind (before ++ piece)⟩ := by
  have hinside : '\n' ∉ piece ∧ '\n' ∉ [c] := by
    simpa only [List.mem_append, not_or] using h.inside
  have hcolumn := h.position hposition
  rw [← List.append_assoc, Position.behind_append _ hinside.2] at hcolumn
  rw [Cursor.spanFrom, hcolumn, hposition]
  have hone : 1 ≤ (Position.behind (before ++ piece)).column := Nat.le_add_left 1 _
  show Span.mk _ ⟨_, max ((Position.behind (before ++ piece)).column + 1 - 1) 1⟩ = _
  rw [Nat.add_sub_cancel, Nat.max_eq_left hone]

/-- In a text that is read without complaints, a character literal quotes what
denotes its character, or nothing. -/
theorem Lexes.quotes {stopped : Bool} {tokens : List Token}
    (h : Lexes stopped cursor tokens []) (hstands : cursor.StandsIn text before)
    (hright : cursor.position = .behind before) :
    ∀ token ∈ tokens, ∀ value, token.kind = .character value →
      ∃ body, token.Quotes text body ∧ (Denotes body value ∨ body = [] ∧ value = '\x00') := by
  have hend (cursor : Cursor) :
      ∀ token ∈ [cursor.endToken], ∀ value, token.kind = .character value →
        ∃ body, token.Quotes text body ∧ (Denotes body value ∨ body = [] ∧ value = '\x00') :=
    List.forall_mem_singleton.2 nofun
  generalize hnone : ([] : List Complaint) = complaints at h
  -- the cursor stands right in front of every token but the ends of lines
  induction h generalizing before with
  | stop cursor => exact hend cursor
  | finish _ => exact hend _
  | @token stopped cursor c rest kind tokens complaints hrest hkind _ ih =>
    obtain ⟨hclean, hlater⟩ := List.append_eq_nil_iff.1 hnone.symm
    obtain ⟨blanks, hblanks, hposition⟩ := hstands.skipBlanks
    obtain ⟨piece, _, hpiece, hbehind⟩ := hblanks.scan hrest
    have hwell : WellQuoted (cursor.skipBlanks.scan c).complaints := by
      rw [hclean]
      exact fun _ hmem => absurd hmem List.not_mem_nil
    refine List.forall_mem_cons.2 ⟨?_, ih hpiece
      (hbehind hwell fun hc => hposition c rest hrest hc hright) hlater.symm⟩
    rintro value rfl
    obtain rfl := (starts_scan hkind).quote
    have hscan : cursor.skipBlanks.scan '\'' = cursor.skipBlanks.scanCharacter := rfl
    rw [hscan] at hkind hclean ⊢
    obtain ⟨body, other, hother, hpasses, hdenotes⟩ := scanCharacter_of_clean hrest hclean
    rw [hkind] at hother
    cases hother
    have hquote := hposition '\'' rest hrest (by decide) hright
    refine ⟨body, ⟨before ++ blanks, cursor.skipBlanks.scanCharacter.cursor.rest, ?_,
      hpasses.spanFrom_eq hquote⟩, hdenotes⟩
    rw [hblanks.text, hpasses.rest, List.append_assoc (before ++ blanks)]
  | @skip stopped cursor c rest tokens complaints hrest hkind _ ih =>
    obtain ⟨hclean, hlater⟩ := List.append_eq_nil_iff.1 hnone.symm
    obtain ⟨blanks, hblanks, hposition⟩ := hstands.skipBlanks
    obtain ⟨piece, _, hpiece, hbehind⟩ := hblanks.scan hrest
    have hwell : WellQuoted (cursor.skipBlanks.scan c).complaints := by
      rw [hclean]
      exact fun _ hmem => absurd hmem List.not_mem_nil
    exact ih hpiece (hbehind hwell fun hc => hposition c rest hrest hc hright) hlater.symm

/-- All complaints about a text are errors. -/
theorem Lexes.errors {stopped : Bool} {tokens : List Token} {complaints : List Complaint}
    (h : Lexes stopped cursor tokens complaints) (hstands : cursor.StandsIn text before) :
    ∀ complaint ∈ complaints, complaint.problem.severity = .error := by
  intro complaint hmem
  obtain ⟨offset, hpoints, _⟩ := (h.located hstands).2 complaint hmem
  exact hpoints.concerns.shows.severity

end Cursor

namespace Source

/-- In a source without errors, every character literal stands for the one
character or the one escape sequence between its quotes, or it is empty and stands
for the null character.  It never has several characters. -/
theorem character_literals (source : Source) (hclean : source.lex.log.totalErrors = 0)
    {token : Token} (hmem : token ∈ source.lex.tokens) {value : Char}
    (hkind : token.kind = .character value) :
    ∃ body, token.Quotes source.text.toList body ∧
      (Cursor.Denotes body value ∨ body = [] ∧ value = '\x00') := by
  obtain ⟨stopped, complaints, hlexes, hlog, _⟩ := source.lexes_lex
  have hnone : complaints = [] := by
    have herrors := errorCount_of_errors (hlexes.errors (.start source.text))
    rw [hlog, Diagnostics.totalErrors_complainAll] at hclean
    refine List.eq_nil_of_length_eq_zero ?_
    omega
  rw [hnone] at hlexes
  exact hlexes.quotes (.start source.text) rfl token hmem value hkind

/-- Behind a comment with a letter of two bytes, an escaped quote is one
character. -/
theorem character_literals_escaped :
    (lex ⟨"", "// é\nx = '\\''"⟩).log.totalErrors = 0 ∧
    ⟨.character '\'', ⟨2, 5⟩, ⟨2, 8⟩⟩ ∈ (lex ⟨"", "// é\nx = '\\''"⟩).tokens ∧
    ∃ body, Token.Quotes "// é\nx = '\\''".toList ⟨.character '\'', ⟨2, 5⟩, ⟨2, 8⟩⟩ body ∧
      (Cursor.Denotes body '\'' ∨ body = [] ∧ '\'' = '\x00') := by
  have hclean : (lex ⟨"", "// é\nx = '\\''"⟩).log.totalErrors = 0 := by decide +kernel
  have hmem : ⟨.character '\'', ⟨2, 5⟩, ⟨2, 8⟩⟩ ∈ (lex ⟨"", "// é\nx = '\\''"⟩).tokens := by
    decide +kernel
  exact ⟨hclean, hmem, character_literals _ hclean hmem rfl⟩

/-- Two quotes with nothing in between are a character literal that nothing is
wrong with, although no character stands in it. -/
theorem empty_literal_unreported :
    (lex ⟨"", "''"⟩).log = ∅ ∧ ⟨.character '\x00', ⟨1, 1⟩, ⟨1, 2⟩⟩ ∈ (lex ⟨"", "''"⟩).tokens ∧
    ¬∃ body, Token.Quotes "''".toList ⟨.character '\x00', ⟨1, 1⟩, ⟨1, 2⟩⟩ body ∧
      Cursor.Denotes body '\x00' := by
  refine ⟨by decide +kernel, by decide +kernel, ?_⟩
  rintro ⟨body, ⟨front, back, htext, _⟩, hdenotes⟩
  have hlength := congrArg List.length htext
  simp only [List.length_append, List.length_singleton] at hlength
  have hempty : body = [] := by
    refine List.eq_nil_of_length_eq_zero ?_
    change 2 = _ at hlength
    omega
  rw [hempty] at hdenotes
  cases hdenotes

end Source

end UnitScript
