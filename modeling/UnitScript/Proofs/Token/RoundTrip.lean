import UnitScript.Proofs.Number.Reading
import UnitScript.Proofs.Token.Scanning
import UnitScript.Proofs.Token.Spelling

/-!
# Written tokens are read back

Every token other than the end of the file has a spelling.  A text of such
spellings, with a space between any two, is read as the tokens that were
spelled, whatever these are.

* `Token.Spelled` is the relation between a token and its spelling.
* `Cursor.scans_spelled` says that a spelling is read as its token, if nothing
  or a space follows it.
* `Source.lex_spelled` puts the spellings together.
-/

namespace UnitScript

namespace Token

/-- How a character is written between quotes `quote`. -/
def escaped (quote c : Char) : List Char :=
  if c = '\\' then ['\\', '\\']
  else if c = quote then ['\\', quote]
  else if c = '\n' then ['\\', 'n']
  else [c]

/-- A text between quotes `quote`. -/
def quoted (quote : Char) (text : List Char) : String :=
  String.ofList (quote :: text.flatMap (escaped quote) ++ [quote])

/-- The operators and delimiters of one character, but for the equals sign. -/
def signs : List (Kind × String) :=
  [(.plus, "+"), (.minus, "-"), (.star, "*"), (.slash, "/"), (.caret, "^"), (.leftParen, "("),
    (.rightParen, ")"), (.leftBracket, "["), (.rightBracket, "]"), (.leftBrace, "\x7b"),
    (.rightBrace, "\x7d")]

/-- A token of this kind is written like this. -/
inductive Spelled : Kind → String → Prop
  | integer {n : Nat} (hrange : n ≤ 2 ^ 63 - 1) : Spelled (.integer n) (toString n)
  | real {whole fraction : List Char} {x : Float} (hwhole : whole ≠ []) (hfraction : fraction ≠ [])
      (hdigits : ∀ c ∈ whole ++ fraction, c.isDigit = true)
      (hvalue : Number.Rounds (Number.decimal whole fraction) x) :
      Spelled (.real x) (String.ofList (whole ++ '.' :: fraction))
  | string (value : String) : Spelled (.string value) (quoted '"' value.toList)
  | character (value : Char) : Spelled (.character value) (quoted '\'' [value])
  | keyword (word : Keyword) : Spelled (.keyword word) word.text
  | identifier {name : String} (hname : IsName name) : Spelled (.identifier name) name
  | sign {kind : Kind} {text : String} (hsign : (kind, text) ∈ signs) : Spelled kind text
  | assign : Spelled .assign "="
  | equal : Spelled .equal "=="
  | notEqual : Spelled .notEqual "!="
  | newline : Spelled .newline "\n"

end Token

namespace Cursor

/-- Nothing follows, or a space. -/
def Separates (rest : List Char) : Prop := ∀ c, rest.head? = some c → c = ' '

theorem Separates.detaches {rest : List Char} (h : Separates rest) : Detaches rest := by
  intro c hc
  rw [h c hc]
  decide

/-! ## Words and numbers -/

/-- A reserved word is read as it is. -/
theorem scans_keyword (word : Keyword) {rest : List Char} (hrest : Detaches rest) :
    Scans word.text.toList (.keyword word) rest := by
  have hstarts : ∃ c rest, word.text.toList = c :: rest ∧ startsWord c = true := by
    cases word <;> exact ⟨_, _, rfl, by decide⟩
  have hcontinues : ∀ c ∈ word.text.toList, continuesWord c = true := by
    cases word <;> exact List.all_eq_true.1 (by decide)
  have hreserved : Token.Kind.ofWord word.text = .keyword word := by
    cases word <;> decide
  rw [← hreserved]
  exact scans_word hstarts hcontinues hrest

/-- A number with a fraction is read as the real that it is rounded to. -/
theorem scans_real {whole fraction : List Char} {x : Float} (hwhole : whole ≠ [])
    (hfraction : fraction ≠ []) (hdigits : ∀ c ∈ whole ++ fraction, c.isDigit = true)
    (hvalue : Number.Rounds (Number.decimal whole fraction) x) {rest : List Char}
    (hrest : Detaches rest) : Scans (whole ++ '.' :: fraction) (.real x) rest := by
  have hx : Number.readReal whole fraction = x :=
    (Number.rounds_readReal whole hfraction).unique hvalue
  have hwholeDigits : ∀ c ∈ whole, c.isDigit = true :=
    fun c hc => hdigits c (List.mem_append_left fraction hc)
  have hfractionDigits : ∀ c ∈ fraction, c.isDigit = true :=
    fun c hc => hdigits c (List.mem_append_right whole hc)
  obtain ⟨c, tail, hc⟩ := List.exists_cons_of_ne_nil hwhole
  obtain ⟨d, more, hd⟩ := List.exists_cons_of_ne_nil hfraction
  have hdigit : c.isDigit = true := hwholeDigits c (by rw [hc]; exact List.mem_cons_self)
  have hword := continuesWord_of_isDigit hdigit
  have hcut : (whole ++ '.' :: (fraction ++ rest)).takeWhile Char.isDigit = whole ∧
      (whole ++ '.' :: (fraction ++ rest)).dropWhile Char.isDigit = '.' :: (fraction ++ rest) :=
    takeWhile_append_eq hwholeDigits (by rintro e ⟨⟩; decide)
  have hcut' := takeWhile_append_eq hfractionDigits hrest.isDigit
  have hgoes : continuesReal ('.' :: (fraction ++ rest)) = true := by
    rw [hd]
    exact hfractionDigits d (by rw [hd]; exact List.mem_cons_self)
  intro position
  rw [List.append_assoc, List.cons_append]
  refine ⟨c, tail ++ '.' :: fraction,
    ⟨position.line, position.column + whole.length + 1 + fraction.length⟩,
    by rw [hc, List.cons_append], ?_, ?_⟩
  · rw [hc, List.cons_append]
    exact skipBlanks_eq (isBlank_of_continuesWord hword)
      (fun hslash => absurd hslash (ne_of_continuesWord hword (by decide))) position
  · rw [scan_of_continuesWord hword, if_pos hdigit, scanNumber_eq, skipWhile, moveTo]
    simp only [hcut.2, hgoes, if_true, scanReal, skipWhile, moveTo, next, hcut.1, List.tail_cons,
      hcut'.1, hcut'.2, hx]

/-! ## Texts between quotes -/

/-- A character stands for itself, or an escape sequence stands for it. -/
theorem escaped_cases (quote : Char) (hquote : escape? quote quote = some quote)
    (hline : quote ≠ '\n') (c : Char) :
    (Token.escaped quote c = [c] ∧ c ≠ '\\' ∧ c ≠ quote ∧ c ≠ '\n') ∨
      ∃ d, Token.escaped quote c = ['\\', d] ∧ d ≠ '\n' ∧ escape? quote d = some c := by
  unfold Token.escaped
  split
  · next hc =>
      subst hc
      exact .inr ⟨'\\', rfl, by decide, rfl⟩
  split
  · next hc =>
      subst hc
      exact .inr ⟨c, rfl, hline, hquote⟩
  split
  · next hc =>
      subst hc
      exact .inr ⟨'n', rfl, by decide, rfl⟩
  · next hslash hquote' hline' => exact .inl ⟨rfl, hslash, hquote', hline'⟩

theorem scanEscape_eq {quote c value : Char} (hc : c ≠ '\n') (h : escape? quote c = some value)
    (rest : List Char) (position : Position) :
    scanEscape quote ⟨'\\' :: c :: rest, position⟩ =
      (some value, [], ⟨rest, position.line, position.column + 1 + 1⟩) := by
  simp only [scanEscape, next, moveTo, List.tail_cons, if_neg hc, h]

/-- A written text is read up to its closing quote. -/
theorem scanStringBody_quoted (opening : Position) (text rest : List Char) {fuel : Nat}
    (hfuel : text.length < fuel) (position : Position) :
    ∃ behind, scanStringBody opening fuel
      ⟨text.flatMap (Token.escaped '"') ++ '"' :: rest, position⟩ = (text, [], ⟨rest, behind⟩) := by
  induction text generalizing fuel position with
  | nil =>
    obtain ⟨fuel, rfl⟩ := Nat.exists_eq_add_one_of_ne_zero (Nat.ne_of_gt hfuel)
    exact ⟨_, rfl⟩
  | cons c text ih =>
    obtain ⟨fuel, rfl⟩ := Nat.exists_eq_add_one_of_ne_zero (Nat.ne_of_gt (Nat.zero_lt_of_lt hfuel))
    have hfuel' : text.length < fuel := Nat.lt_of_succ_lt_succ hfuel
    rw [List.flatMap_cons, List.append_assoc]
    rcases escaped_cases '"' rfl (by decide) c with
      ⟨hplain, hslash, hquote, hline⟩ | ⟨d, hplain, hd, hescape⟩
    · obtain ⟨behind, hbody⟩ := ih hfuel' ⟨position.line, position.column + 1⟩
      refine ⟨behind, ?_⟩
      rw [hplain, List.singleton_append, scanStringBody]
      simp only [if_neg hline, if_neg hquote, if_neg hslash]
      rw [next, moveTo, List.tail_cons, hbody]
    · obtain ⟨behind, hbody⟩ := ih hfuel' ⟨position.line, position.column + 1 + 1⟩
      refine ⟨behind, ?_⟩
      rw [hplain, scanStringBody]
      simp only [List.cons_append, List.nil_append, scanEscape_eq hd hescape, hbody]
      rfl

theorem toList_quoted (quote : Char) (text : List Char) :
    (Token.quoted quote text).toList = quote :: (text.flatMap (Token.escaped quote) ++ [quote]) :=
  String.toList_ofList

theorem length_le_length_escaped (quote : Char) (text : List Char) :
    text.length ≤ (text.flatMap (Token.escaped quote)).length := by
  induction text with
  | nil => exact Nat.le_refl 0
  | cons c text ih =>
    have hone : 1 ≤ (Token.escaped quote c).length := by
      unfold Token.escaped
      repeat' split
      all_goals exact Nat.le_add_left 1 _
    rw [List.flatMap_cons, List.length_append, List.length_cons]
    omega

/-- Nothing is skipped in front of a quote. -/
theorem skipBlanks_quote {quote : Char} (hblank : isBlank quote = false) (hslash : quote ≠ '/')
    (rest : List Char) (position : Position) :
    skipBlanks ⟨quote :: rest, position⟩ = ⟨quote :: rest, position⟩ :=
  skipBlanks_eq hblank (fun heq => absurd heq hslash) position

/-- A written text is read back. -/
theorem scans_string (value : String) (rest : List Char) :
    Scans (Token.quoted '"' value.toList).toList (.string value) rest := by
  intro position
  have hfuel : value.toList.length <
      ('"' :: (value.toList.flatMap (Token.escaped '"') ++ '"' :: rest)).length := by
    have hlength := length_le_length_escaped '"' value.toList
    simp only [List.length_cons, List.length_append]
    omega
  obtain ⟨behind, hbody⟩ := scanStringBody_quoted position value.toList rest hfuel
    ⟨position.line, position.column + 1⟩
  rw [toList_quoted, List.cons_append, List.append_assoc, List.singleton_append]
  refine ⟨'"', _, behind, rfl, skipBlanks_quote (by decide) (by decide) _ position, ?_⟩
  have hscan (cursor : Cursor) : cursor.scan '"' = cursor.scanString := by
    unfold scan
    rfl
  rw [hscan, scanString, next, moveTo, List.tail_cons]
  simp only [hbody, String.ofList_toList]
  rfl

/-- What stands between single quotes is read as one character. -/
theorem scanCharacterBody_escaped (value : Char) (rest : List Char) (position : Position) :
    ∃ behind, scanCharacterBody ⟨Token.escaped '\'' value ++ '\'' :: rest, position⟩ =
      (some value, [], ⟨'\'' :: rest, behind⟩) := by
  rcases escaped_cases '\'' rfl (by decide) value with
    ⟨hplain, hslash, hquote, hline⟩ | ⟨d, hpair, hd, hescape⟩
  · refine ⟨⟨position.line, position.column + 1⟩, ?_⟩
    have hinside : (value = '\n' || value = '\'') = false := by
      rw [decide_eq_false hline, decide_eq_false hquote]
      rfl
    rw [hplain, List.singleton_append, scanCharacterBody]
    simp only [if_neg hslash, hinside, Bool.false_eq_true, if_false, next, moveTo, List.tail_cons]
  · refine ⟨⟨position.line, position.column + 1 + 1⟩, ?_⟩
    rw [hpair, List.cons_append, List.singleton_append, scanCharacterBody]
    simp only [if_true, scanEscape_eq hd hescape]

/-- A written character is read back. -/
theorem scans_character (value : Char) (rest : List Char) :
    Scans (Token.quoted '\'' [value]).toList (.character value) rest := by
  intro position
  obtain ⟨behind, hbody⟩ := scanCharacterBody_escaped value rest
    ⟨position.line, position.column + 1⟩
  rw [toList_quoted, List.flatMap_singleton, List.cons_append, List.append_assoc,
    List.singleton_append]
  refine ⟨'\'', _, ⟨behind.line, behind.column + 1⟩, rfl,
    skipBlanks_quote (by decide) (by decide) _ position, ?_⟩
  have hscan (cursor : Cursor) : cursor.scan '\'' = cursor.scanCharacter := by
    unfold scan
    rfl
  rw [hscan, scanCharacter, next, moveTo, List.tail_cons, hbody]
  rfl

/-! ## Operators and delimiters -/

theorem sign?_of_mem_signs :
    ∀ pair ∈ Token.signs, pair.2.toList.map sign? = [some pair.1] := by
  decide

/-- No comment starts between a slash and a space. -/
theorem scans_signs {kind : Token.Kind} {text : String} (h : (kind, text) ∈ Token.signs)
    {rest : List Char} (hrest : Separates rest) : Scans text.toList kind rest := by
  obtain ⟨c, htext, hc⟩ := List.map_eq_singleton_iff.1 (sign?_of_mem_signs _ h)
  rw [htext]
  refine scans_sign hc fun _ hslash => ?_
  exact absurd (hrest _ hslash) (by decide)

theorem scan_equals (cursor : Cursor) :
    cursor.scan '=' =
      if cursor.next.rest.head? = some '=' then clean .equal cursor.next.next
      else clean .assign cursor.next := by
  unfold scan
  rfl

theorem scans_assign {rest : List Char} (hrest : Separates rest) : Scans ['='] .assign rest := by
  intro position
  refine ⟨'=', [], ⟨position.line, position.column + 1⟩, rfl,
    skipBlanks_eq (by decide) (fun hslash => absurd hslash (by decide)) position, ?_⟩
  rw [scan_equals]
  exact if_neg fun hequal => absurd (hrest _ hequal) (by decide)

theorem scans_equal (rest : List Char) : Scans ['=', '='] .equal rest := by
  intro position
  exact ⟨'=', ['='], ⟨position.line, position.column + 1 + 1⟩, rfl,
    skipBlanks_eq (by decide) (fun hslash => absurd hslash (by decide)) position, scan_equals _⟩

theorem scans_notEqual (rest : List Char) : Scans ['!', '='] .notEqual rest := by
  intro position
  refine ⟨'!', ['='], ⟨position.line, position.column + 1 + 1⟩, rfl,
    skipBlanks_eq (by decide) (fun hslash => absurd hslash (by decide)) position, ?_⟩
  unfold scan
  rfl

theorem scans_newline (rest : List Char) : Scans ['\n'] .newline rest := by
  intro position
  exact ⟨'\n', [], ⟨position.line + 1, 1⟩, rfl,
    skipBlanks_eq (by decide) (fun hslash => absurd hslash (by decide)) position, scan_newline _⟩

/-! ## Whole texts -/

/-- A spelling is read as its token, if nothing or a space follows it. -/
theorem scans_spelled {kind : Token.Kind} {text : String} (h : Token.Spelled kind text)
    {rest : List Char} (hrest : Separates rest) : Scans text.toList kind rest := by
  cases h with
  | integer hrange =>
    refine scans_integer (decide_eq_true ?_) hrest.detaches
    unfold Number.least Number.greatest
    omega
  | real hwhole hfraction hdigits hvalue =>
    rw [String.toList_ofList]
    exact scans_real hwhole hfraction hdigits hvalue hrest.detaches
  | string value => exact scans_string value rest
  | character value => exact scans_character value rest
  | keyword word => exact scans_keyword word hrest.detaches
  | identifier hname => exact scans_name hname hrest.detaches
  | sign hsign => exact scans_signs hsign hrest
  | assign => exact scans_assign hrest
  | equal => exact scans_equal rest
  | notEqual => exact scans_notEqual rest
  | newline => exact scans_newline rest

/-- A space is skipped. -/
theorem skipBlanks_space (rest : List Char) (position : Position) :
    skipBlanks ⟨' ' :: rest, position⟩ =
      skipBlanks ⟨rest, position.line, position.column + 1⟩ := by
  have hskip : skipWhile isBlank ⟨' ' :: rest, position⟩ =
      skipWhile isBlank ⟨rest, position.line, position.column + 1⟩ := by
    simp only [skipWhile, moveTo, List.dropWhile_cons, List.takeWhile_cons,
      show isBlank ' ' = true by decide, if_true, List.length_cons]
    congr 2
    omega
  unfold skipBlanks
  rw [hskip]

/-- A piece that is read as a token stands in front of what follows it. -/
theorem Scans.lexes {piece rest : List Char} {kind : Token.Kind} (h : Scans piece kind rest)
    (position : Position) : ∃ behind span, ∀ {tokens : List Token} {complaints : List Complaint},
      Lexes false ⟨rest, behind⟩ tokens complaints →
        Lexes false ⟨piece ++ rest, position⟩ (⟨kind, span⟩ :: tokens) complaints := by
  obtain ⟨c, tail, behind, rfl, hskip, hscan⟩ := h position
  refine ⟨behind, spanFrom ⟨rest, behind⟩ position, fun hlater => ?_⟩
  obtain ⟨cursor, hcursor⟩ : ∃ cursor : Cursor, cursor = ⟨c :: tail ++ rest, position⟩ := ⟨_, rfl⟩
  rw [← hcursor] at hskip hscan ⊢
  have hrest : cursor.skipBlanks.rest = c :: (tail ++ rest) := by
    rw [hskip, hcursor]
    rfl
  have hkind : (cursor.skipBlanks.scan c).kind = some kind := by
    rw [hskip, hscan]
    rfl
  have htoken := Lexes.token hrest hkind (by rw [hskip, hscan]; exact hlater)
  rw [hskip, hscan] at htoken
  subst hcursor
  exact htoken

end Cursor

theorem Source.Reads.cons {tokens : List Token} {kinds : List Token.Kind} (h : Reads tokens kinds)
    (token : Token) : Reads (token :: tokens) (token.kind :: kinds) := by
  obtain ⟨body, last, rfl, rfl, hlast⟩ := h
  exact ⟨token :: body, last, rfl, rfl, hlast⟩

/-- Spellings with spaces between them are read as what they spell. -/
theorem Cursor.lexes_spelled {kinds : List Token.Kind} {pieces : List String}
    (h : List.Forall₂ Token.Spelled kinds pieces) (position : Position) :
    ∃ tokens, Lexes false ⟨[' '].intercalate (pieces.map String.toList), position⟩ tokens [] ∧
      Source.Reads tokens kinds := by
  induction h generalizing position with
  | nil => exact ⟨_, .finish rfl, [], _, rfl, rfl, rfl⟩
  | @cons kind piece kinds pieces hpiece hpieces ih =>
    -- what follows the first spelling: nothing, or a space and the others
    obtain ⟨rest, htext, hseparates, hlater⟩ : ∃ rest : List Char,
        [' '].intercalate ((piece :: pieces).map String.toList) = piece.toList ++ rest ∧
        Separates rest ∧ ∀ behind, ∃ tokens, Lexes false ⟨rest, behind⟩ tokens [] ∧
          Source.Reads tokens kinds := by
      cases hpieces with
      | nil =>
        refine ⟨[], ?_, nofun, ih⟩
        rw [List.map_singleton, List.intercalate_singleton, List.append_nil]
      | @cons _ second _ pieces _ _ =>
        refine ⟨' ' :: [' '].intercalate ((second :: pieces).map String.toList), ?_, ?_,
          fun behind => ?_⟩
        · rw [List.map_cons, List.map_cons, List.intercalate_cons_cons, List.append_assoc,
            List.singleton_append]
        · rintro c ⟨⟩
          rfl
        · obtain ⟨tokens, hlexes, hreads⟩ := ih ⟨behind.line, behind.column + 1⟩
          exact ⟨tokens, hlexes.of_skipBlanks (skipBlanks_space _ _).symm, hreads⟩
    obtain ⟨behind, span, hlexes⟩ := (scans_spelled hpiece hseparates).lexes position
    obtain ⟨tokens, hrest, hreads⟩ := hlater behind
    rw [htext]
    exact ⟨⟨kind, span⟩ :: tokens, hlexes hrest, hreads.cons ⟨kind, span⟩⟩

namespace Source

/-- A text of spellings with single spaces between them is read as exactly the
tokens that were spelled, and nothing is wrong with it. -/
theorem lex_spelled {kinds : List Token.Kind} {pieces : List String}
    (h : List.Forall₂ Token.Spelled kinds pieces) (name : String) :
    (Source.mk name (" ".intercalate pieces)).lex.log = ∅ ∧
      Reads (Source.mk name (" ".intercalate pieces)).lex.tokens kinds := by
  obtain ⟨tokens, hlexes, hreads⟩ := Cursor.lexes_spelled h .origin
  have htext : (" ".intercalate pieces).toList = [' '].intercalate (pieces.map String.toList) :=
    String.toList_intercalate
  rw [← htext] at hlexes
  have hlex : (Source.mk name (" ".intercalate pieces)).lex = ⟨tokens, ∅⟩ :=
    lexFrom_of_lexes _ hlexes (Nat.lt_succ_self _) (by decide)
  rw [hlex]
  exact ⟨rfl, hreads⟩

/-- Quotes, escapes and a letter outside of ASCII in a text, a quote as a
character, signs of two characters, a reserved word in front of a name, and a
real that has no exact value. -/
theorem lex_spelled_line :
    let kinds : List Token.Kind :=
      [.identifier "true_", .assign, .string "a\"é\\\n", .equal, .character '\'', .slash,
        .real (Number.readReal ['0'] ['1']), .newline, .keyword .true, .integer 9223372036854775807]
    let pieces : List String :=
      ["true_", "=", "\"a\\\"é\\\\\\n\"", "==", "'\\''", "/", "0.1", "\n", "true",
        "9223372036854775807"]
    List.Forall₂ Token.Spelled kinds pieces ∧
      (Source.mk "line" (" ".intercalate pieces)).lex.log = ∅ ∧
      Reads (Source.mk "line" (" ".intercalate pieces)).lex.tokens kinds := by
  have hname : Token.IsName "true_" :=
    ⟨⟨'t', "rue_".toList, by decide, by decide⟩, List.all_eq_true.1 (by decide), by decide⟩
  have hreal : Token.Spelled (.real (Number.readReal ['0'] ['1'])) "0.1" :=
    @Token.Spelled.real ['0'] ['1'] _ (by decide) (by decide) (List.all_eq_true.1 (by decide))
      (Number.rounds_readReal ['0'] (by decide))
  intro kinds pieces
  have hspelled : List.Forall₂ Token.Spelled kinds pieces := by
    refine .cons (.identifier hname) (.cons .assign (.cons (.string _) (.cons .equal
      (.cons (.character _) (.cons (.sign ?_) (.cons hreal (.cons .newline
        (.cons (.keyword .true) (.cons (.integer ?_) .nil)))))))))
    · decide
    · decide
  exact ⟨hspelled, lex_spelled hspelled "line"⟩

end Source

end UnitScript
