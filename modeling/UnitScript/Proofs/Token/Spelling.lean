import UnitScript.Proofs.Diagnostics
import UnitScript.Token.Lexer

/-!
# Texts that are read as they are written

A text that is put together from the spellings of tokens is read as these
tokens, as long as no spelling runs on into the next one.

* `Token.IsName` says what a name looks like.  `isName_of_mem_lex` says that all
  names that are read look like that.
* `Cursor.Scans` says that a piece of text in front of another one is read as
  one token; `scans_sign`, `scans_name` and `scans_integer` are the tokens of
  unit expressions.
* `Cursor.Spells` puts pieces together, and `lex_of_spells` reads the whole.
-/

namespace UnitScript

/-- A name: a word that starts with a letter or an underscore, goes on with
letters, digits and underscores, and is not reserved. -/
structure Token.IsName (name : String) : Prop where
  starts : ∃ c rest, name.toList = c :: rest ∧ Cursor.startsWord c = true
  continues : ∀ c ∈ name.toList, Cursor.continuesWord c = true
  free : Keyword.ofText? name = none

namespace Cursor

/-! ## Characters -/

theorem continuesWord_of_startsWord {c : Char} (h : startsWord c = true) :
    continuesWord c = true := by
  unfold startsWord at h
  unfold continuesWord Char.isAlphanum
  simp only [Bool.or_eq_true, decide_eq_true_eq] at h ⊢
  rcases h with h | h
  · exact .inl (.inl h)
  · exact .inr h

theorem continuesWord_of_isDigit {c : Char} (h : c.isDigit = true) : continuesWord c = true := by
  unfold continuesWord Char.isAlphanum
  rw [h, Bool.or_true, Bool.true_or]

/-- A word does not start with a digit. -/
theorem isDigit_of_startsWord {c : Char} (h : startsWord c = true) : c.isDigit = false := by
  rw [← Bool.not_eq_true]
  intro hdigit
  change (decide (65 ≤ c.val ∧ c.val ≤ 90) || decide (97 ≤ c.val) && decide (c.val ≤ 122) ||
    decide (c = '_')) = true at h
  simp only [Char.isDigit, Bool.or_eq_true, Bool.and_eq_true, decide_eq_true_eq,
    UInt32.le_iff_toNat_le, ge_iff_le] at h hdigit
  change 48 ≤ c.toNat ∧ c.toNat ≤ 57 at hdigit
  change ((65 ≤ c.toNat ∧ c.toNat ≤ 90) ∨ (97 ≤ c.toNat ∧ c.toNat ≤ 122)) ∨ c = '_' at h
  rcases h with (h | h) | rfl
  · omega
  · omega
  · exact absurd hdigit (by decide)

/-- Neither a letter nor a digit is a sign. -/
theorem sign?_of_continuesWord {c : Char} (h : continuesWord c = true) : sign? c = none := by
  unfold sign?
  split
  all_goals first | rfl | exact absurd h (by decide)

/-- No character of a word separates tokens. -/
theorem isBlank_of_continuesWord {c : Char} (h : continuesWord c = true) : isBlank c = false := by
  unfold isBlank
  rw [Bool.or_eq_false_iff, Bool.or_eq_false_iff]
  refine ⟨⟨?_, ?_⟩, ?_⟩ <;>
  · rw [decide_eq_false_iff_not]
    rintro rfl
    exact absurd h (by decide)

theorem ne_of_continuesWord {c d : Char} (h : continuesWord c = true)
    (hd : continuesWord d = false) : c ≠ d := by
  rintro rfl
  rw [h] at hd
  cases hd

/-! ## Single tokens -/

/-- A word or a number would not go on with this text. -/
def Detaches (rest : List Char) : Prop :=
  ∀ c, rest.head? = some c → continuesWord c = false ∧ c ≠ '.'

theorem detaches_cons {c : Char} {rest : List Char} (hword : continuesWord c = false)
    (hpoint : c ≠ '.') : Detaches (c :: rest) := by
  rintro d hd
  cases hd
  exact ⟨hword, hpoint⟩

theorem Detaches.isDigit {rest : List Char} (h : Detaches rest) (c : Char)
    (hc : rest.head? = some c) : c.isDigit = false := by
  rw [← Bool.not_eq_true]
  intro hdigit
  have hword := (h c hc).1
  rw [continuesWord_of_isDigit hdigit] at hword
  cases hword

/-- The text `piece` in front of `rest` is read as a token of kind `kind`. -/
def Scans (piece : List Char) (kind : Token.Kind) (rest : List Char) : Prop :=
  ∀ position, ∃ c tail behind, piece = c :: tail ∧
    skipBlanks ⟨piece ++ rest, position⟩ = ⟨piece ++ rest, position⟩ ∧
    scan c ⟨piece ++ rest, position⟩ = clean kind ⟨rest, behind⟩

/-- Nothing is skipped in front of a character that is no blank and starts no
comment. -/
theorem skipBlanks_eq {c : Char} {rest : List Char} (hblank : isBlank c = false)
    (hcomment : c = '/' → rest.head? ≠ some '/') (position : Position) :
    skipBlanks ⟨c :: rest, position⟩ = ⟨c :: rest, position⟩ := by
  have hskipped : skipWhile isBlank ⟨c :: rest, position⟩ = ⟨c :: rest, position⟩ := by
    simp only [skipWhile, moveTo, List.dropWhile_cons, List.takeWhile_cons, hblank,
      Bool.false_eq_true, if_false, List.length_nil, Nat.add_zero]
  unfold skipBlanks
  simp only [hskipped]
  split
  · next tail heq =>
      cases heq
      exact absurd rfl (hcomment rfl)
  · rfl

/-- A sign is read as it is, unless it is the first half of a comment. -/
theorem scans_sign {c : Char} {kind : Token.Kind} {rest : List Char} (h : sign? c = some kind)
    (hcomment : c = '/' → rest.head? ≠ some '/') : Scans [c] kind rest := by
  have hplain : c ≠ '\n' ∧ isBlank c = false := by
    unfold sign? at h
    split at h <;> first | exact ⟨by decide, by decide⟩ | cases h
  intro position
  refine ⟨c, [], ⟨position.line, position.column + 1⟩, rfl,
    skipBlanks_eq hplain.2 hcomment position, ?_⟩
  simp only [scan, if_neg hplain.1, h]
  rfl

/-- A text in front of something that is not of its kind is cut off there. -/
theorem takeWhile_append_eq {p : Char → Bool} {piece rest : List Char}
    (hpiece : ∀ c ∈ piece, p c = true) (hrest : ∀ c, rest.head? = some c → p c = false) :
    (piece ++ rest).takeWhile p = piece ∧ (piece ++ rest).dropWhile p = rest := by
  rw [List.takeWhile_append_of_pos hpiece, List.dropWhile_append_of_pos hpiece]
  cases rest with
  | nil => exact ⟨List.append_nil piece, rfl⟩
  | cons c rest =>
    rw [List.takeWhile_cons, List.dropWhile_cons, hrest c rfl]
    exact ⟨List.append_nil piece, rfl⟩

/-- What a character that goes on with a word is read as, when it comes first. -/
theorem scan_of_continuesWord {c : Char} (h : continuesWord c = true) (cursor : Cursor) :
    cursor.scan c =
      if c.isDigit then cursor.scanNumber
      else if startsWord c then cursor.scanWord
      else ⟨none, [⟨.unexpectedCharacter c, cursor.next.spanFrom cursor.position⟩], cursor.next⟩ := by
  have hne {d : Char} (hd : continuesWord d = false) : c ≠ d := ne_of_continuesWord h hd
  have hbang : (c = '!' && cursor.next.rest.head? = some '=') = false := by
    rw [Bool.and_eq_false_iff]
    exact .inl (decide_eq_false (hne (by decide)))
  unfold scan
  rw [if_neg (hne (by decide)), sign?_of_continuesWord h]
  simp only
  rw [if_neg (hne (by decide)), hbang, if_neg Bool.false_ne_true, if_neg (hne (by decide)),
    if_neg (hne (by decide))]

/-- A word is read up to its end. -/
theorem scans_word {word : String}
    (hstarts : ∃ c rest, word.toList = c :: rest ∧ startsWord c = true)
    (hcontinues : ∀ c ∈ word.toList, continuesWord c = true) {rest : List Char}
    (hrest : Detaches rest) : Scans word.toList (.ofWord word) rest := by
  obtain ⟨c, tail, hword, hstart⟩ := hstarts
  have hc := continuesWord_of_startsWord hstart
  have hcut := takeWhile_append_eq hcontinues fun d hd => (hrest d hd).1
  intro position
  refine ⟨c, tail, ⟨position.line, position.column + word.toList.length⟩, hword, ?_, ?_⟩
  · rw [hword]
    exact skipBlanks_eq (isBlank_of_continuesWord hc)
      (fun hslash => absurd hslash (ne_of_continuesWord hc (by decide))) position
  · rw [scan_of_continuesWord hc, isDigit_of_startsWord hstart, if_neg Bool.false_ne_true,
      if_pos hstart, scanWord, skipWhile, moveTo]
    simp only [hcut.1, hcut.2, String.ofList_toList]

/-- A name is read as it is. -/
theorem scans_name {name : String} (h : Token.IsName name) {rest : List Char}
    (hrest : Detaches rest) : Scans name.toList (.identifier name) rest := by
  have hscans := scans_word h.starts h.continues hrest
  rwa [Token.Kind.ofWord, h.free] at hscans

theorem isDigit_of_mem_repr {n : Nat} {c : Char} (h : c ∈ n.repr.toList) : c.isDigit = true := by
  rw [Nat.toList_repr] at h
  exact Nat.isDigit_of_mem_toDigits (by decide) (by decide) h

theorem repr_starts (n : Nat) : ∃ c rest, n.repr.toList = c :: rest ∧ c.isDigit = true := by
  obtain ⟨c, rest, hrepr⟩ : ∃ c rest, n.repr.toList = c :: rest := by
    rw [Nat.toList_repr]
    exact List.exists_cons_of_ne_nil Nat.toDigits_ne_nil
  exact ⟨c, rest, hrepr, isDigit_of_mem_repr (by rw [hrepr]; exact List.mem_cons_self)⟩

/-- The digits of a number are read as that number. -/
theorem scans_integer {n : Nat} (hrange : Number.inRange n = true) {rest : List Char}
    (hrest : Detaches rest) : Scans n.repr.toList (.integer n) rest := by
  have hvalue : Number.ofDigits n.repr.toList = n := by
    rw [Nat.toList_repr]
    exact Nat.ofDigitChars_toDigits (by decide) (by decide)
  have hcut := takeWhile_append_eq (fun c => isDigit_of_mem_repr (n := n)) hrest.isDigit
  obtain ⟨c, tail, hrepr, hdigit⟩ := repr_starts n
  have hword := continuesWord_of_isDigit hdigit
  intro position
  refine ⟨c, tail, ⟨position.line, position.column + n.repr.toList.length⟩, hrepr, ?_, ?_⟩
  · rw [hrepr]
    exact skipBlanks_eq (isBlank_of_continuesWord hword)
      (fun hslash => absurd hslash (ne_of_continuesWord hword (by decide))) position
  · rw [scan_of_continuesWord hword, if_pos hdigit, scanNumber, skipWhile, moveTo]
    simp only [hcut.1, hcut.2, hvalue, if_pos hrange]
    split
    · next d digits => exact absurd rfl (hrest '.' rfl).2
    · rfl

/-! ## Whole texts -/

/-- The text is put together from pieces that are read as tokens of these
kinds. -/
inductive Spells : List Char → List Token.Kind → Prop
  | nil : Spells [] []
  | cons {piece rest : List Char} {kind : Token.Kind} {kinds : List Token.Kind}
      (hpiece : Scans piece kind rest) (hrest : Spells rest kinds) :
      Spells (piece ++ rest) (kind :: kinds)

/-- A sign that starts no comment goes in front of any text. -/
theorem Spells.sign {c : Char} {kind : Token.Kind} {rest : List Char} {kinds : List Token.Kind}
    (h : sign? c = some kind) (hne : c ≠ '/') (hrest : Spells rest kinds) :
    Spells (c :: rest) (kind :: kinds) :=
  .cons (scans_sign h fun hslash => absurd hslash hne) hrest

end Cursor

namespace Source

/-- The tokens are of these kinds, with the end of the file behind them. -/
def Reads (tokens : List Token) (kinds : List Token.Kind) : Prop :=
  ∃ body last, tokens = body ++ [last] ∧ body.map (·.kind) = kinds ∧ last.kind = .endOfFile

/-- A token without complaints stands in front of those that follow it. -/
theorem lexFrom_of_clean (source : Source) (fuel : Nat) {cursor behind : Cursor} {log : Diagnostics}
    (hlog : log.atErrorLimit = false) {c : Char} {rest : List Char} {kind : Token.Kind}
    (hskip : cursor.skipBlanks = cursor) (hrest : cursor.rest = c :: rest)
    (hscan : cursor.scan c = Cursor.clean kind behind) :
    source.lexFrom (fuel + 1) cursor log =
      { source.lexFrom fuel behind log with
        tokens := ⟨kind, behind.spanFrom cursor.position⟩ ::
          (source.lexFrom fuel behind log).tokens } := by
  rw [lexFrom, if_neg (by rw [hlog]; exact Bool.false_ne_true), hskip]
  simp only [hrest, hscan]
  rfl

/-- A text is read as the tokens that it is put together from, and nothing is
wrong with it. -/
theorem lexFrom_of_spells (source : Source) {text : List Char} {kinds : List Token.Kind}
    (h : Cursor.Spells text kinds) {fuel : Nat} (hfuel : text.length < fuel) (position : Position)
    {log : Diagnostics} (hlog : log.atErrorLimit = false) :
    (source.lexFrom fuel ⟨text, position⟩ log).log = log ∧
      Reads (source.lexFrom fuel ⟨text, position⟩ log).tokens kinds := by
  induction h generalizing fuel position with
  | nil =>
    obtain ⟨fuel, rfl⟩ := Nat.exists_eq_add_one_of_ne_zero (Nat.ne_of_gt hfuel)
    rw [lexFrom, if_neg (by rw [hlog]; exact Bool.false_ne_true)]
    exact ⟨rfl, [], _, rfl, rfl, rfl⟩
  | @cons piece rest kind kinds hpiece hrest ih =>
    obtain ⟨fuel, rfl⟩ := Nat.exists_eq_add_one_of_ne_zero (Nat.ne_of_gt (Nat.zero_lt_of_lt hfuel))
    obtain ⟨c, tail, behind, rfl, hskip, hscan⟩ := hpiece position
    have hshorter : rest.length < fuel := by
      simp only [List.length_append, List.length_cons] at hfuel
      omega
    obtain ⟨hlogged, body, last, htokens, hkinds, hlast⟩ := ih hshorter behind
    rw [lexFrom_of_clean source fuel hlog hskip rfl hscan]
    exact ⟨hlogged, _ :: body, last, by rw [htokens]; rfl, by rw [List.map_cons, hkinds], hlast⟩

theorem lex_of_spells (source : Source) {kinds : List Token.Kind}
    (h : Cursor.Spells source.text.toList kinds) :
    source.lex.log = ∅ ∧ Reads source.lex.tokens kinds :=
  lexFrom_of_spells source h (Nat.lt_succ_self _) .origin rfl

end Source

/-! ## Names that are read -/

namespace Cursor

/-- A word that is not reserved is a name. -/
theorem isName_of_scanWord {c : Char} {cursor : Cursor} {rest : List Char}
    (hrest : cursor.rest = c :: rest) (hstart : startsWord c = true) {name : String}
    (h : cursor.scanWord.kind = some (.identifier name)) : Token.IsName name := by
  have hword := continuesWord_of_startsWord hstart
  rw [scanWord, hrest] at h
  simp only [clean, Option.some.injEq, Token.Kind.ofWord] at h
  split at h
  · cases h
  · next hfree =>
      cases h
      refine ⟨⟨c, rest.takeWhile continuesWord, ?_, hstart⟩, ?_, hfree⟩
      · rw [String.toList_ofList, List.takeWhile_cons, if_pos hword]
      · rw [String.toList_ofList]
        exact List.all_eq_true.1 List.all_takeWhile

theorem scanNumber_ne_identifier (cursor : Cursor) (name : String) :
    cursor.scanNumber.kind ≠ some (.identifier name) := by
  have hinteger (value : Nat) (digits : List Char) (behind : Cursor) (span : Span) :
      Scan.kind (if Number.inRange value then clean (.integer value) behind
        else ⟨some (.integer 0), [⟨.integerTooLarge (String.ofList digits), span⟩], behind⟩) ≠
        some (.identifier name) := by
    split <;> exact nofun
  unfold scanNumber
  simp only
  split
  · split
    · exact nofun
    · exact hinteger _ _ _ _
  · exact hinteger _ _ _ _

theorem scanCharacter_ne_identifier (cursor : Cursor) (name : String) :
    cursor.scanCharacter.kind ≠ some (.identifier name) := by
  unfold scanCharacter
  simp only
  split <;> exact nofun

/-- Only words are read as names. -/
theorem isName_of_scan {c : Char} {cursor : Cursor} {rest : List Char}
    (hrest : cursor.rest = c :: rest) {name : String}
    (h : (cursor.scan c).kind = some (.identifier name)) : Token.IsName name := by
  unfold scan at h
  split at h
  · cases h
  split at h
  · next kind hsign =>
      cases h
      unfold sign? at hsign
      split at hsign <;> cases hsign
  split at h
  · split at h <;> cases h
  split at h
  · cases h
  split at h
  · exact absurd h (scanNumber_ne_identifier cursor name)
  split at h
  · next hstart => exact isName_of_scanWord hrest hstart h
  split at h
  · cases h
  split at h
  · exact absurd h (scanCharacter_ne_identifier cursor name)
  · cases h

end Cursor

namespace Source

/-- All names that are read from a text are names. -/
theorem isName_of_mem_lexFrom (source : Source) {name : String} {token : Token}
    (hkind : token.kind = .identifier name) (fuel : Nat) (cursor : Cursor) (log : Diagnostics)
    (h : token ∈ (source.lexFrom fuel cursor log).tokens) : Token.IsName name := by
  have hend (cursor : Cursor) : token ∉ [cursor.endToken] := by
    intro hmem
    cases List.mem_singleton.1 hmem
    cases hkind
  induction fuel generalizing cursor log with
  | zero => exact absurd h (hend cursor)
  | succ fuel ih =>
    unfold lexFrom at h
    split at h
    · exact absurd h (hend cursor)
    · simp only at h
      split at h
      · exact absurd h (hend _)
      · next c rest hrest =>
          split at h
          · next kind hscan =>
              rcases List.mem_cons.1 h with rfl | h
              · cases hkind
                exact Cursor.isName_of_scan hrest hscan
              · exact ih _ _ h
          · exact ih _ _ h

theorem isName_of_mem_lex (source : Source) {name : String}
    (h : .identifier name ∈ source.lex.tokens.map (·.kind)) : Token.IsName name := by
  obtain ⟨token, hmem, hkind⟩ := List.mem_map.1 h
  exact source.isName_of_mem_lexFrom hkind _ _ _ hmem

end Source

end UnitScript
