import UnitScript.Proofs.Lines
import UnitScript.Token.Lexer

/-!
# A reader of bytes

A text can be read with nothing but a byte offset.  Such a reader looks at one
byte at a time and moves over single bytes.  Only where it cuts out a word or a
number, and where it has to know a character of several bytes, does it need the
text at its offset.  This fails when the offset is inside a character.

* `Text.bytes` is the encoding of a text; `Text.Shows` says what a byte tells of the
  character it belongs to.
* `ByteCursor` is the place of the reader.  Its functions are partial: `none` is a
  cut inside a character, or a loop that has not come to an end.
* `Source.lexBytes?` reads a whole text.
-/

namespace UnitScript

/-! ## The bytes of a text -/

namespace Text

/-- The bytes of a text in UTF-8. -/
def bytes (text : List Char) : List UInt8 := text.flatMap String.utf8EncodeChar

theorem bytes_append (front back : List Char) : bytes (front ++ back) = bytes front ++ bytes back :=
  List.flatMap_append

theorem length_bytes (text : List Char) : (bytes text).length = byteLength text := by
  induction text with
  | nil => rfl
  | cons c rest ih =>
    rw [← List.singleton_append, bytes_append, List.length_append, ih, byteLength_append, bytes,
      List.flatMap_singleton, String.length_utf8EncodeChar, byteLength_cons, byteLength_nil,
      Nat.add_zero]

/-- A text starts with a byte of its first character. -/
theorem head?_bytes (c : Char) (rest : List Char) :
    ∃ b ∈ String.utf8EncodeChar c, (bytes (c :: rest)).head? = some b := by
  obtain ⟨b, more, hencode⟩ : ∃ b more, String.utf8EncodeChar c = b :: more := by
    refine List.exists_cons_of_length_pos ?_
    rw [String.length_utf8EncodeChar]
    exact c.utf8Size_pos
  refine ⟨b, by rw [hencode]; exact List.mem_cons_self, ?_⟩
  rw [bytes, List.flatMap_cons, hencode]
  rfl

/-- What a byte of the character `c`, taken for a character `d`, tells of it: all of it,
or only that it is beyond ASCII. -/
def Shows (c d : Char) : Prop := c.toNat < 128 ∧ d = c ∨ 128 ≤ c.toNat ∧ 128 ≤ d.toNat

/-- Every byte of a character shows it. -/
theorem shows_of_mem {c : Char} {b : UInt8} (h : b ∈ String.utf8EncodeChar c) :
    Shows c (.ofUInt8 b) := by
  have hbyte (n : Nat) (hn : n < 256) : (UInt8.ofNat n).toUInt32.toNat = n := by
    rw [UInt8.toNat_toUInt32, UInt8.toNat_ofNat', Nat.mod_eq_of_lt hn]
  unfold String.utf8EncodeChar at h
  simp only at h
  split at h
  · next hascii =>
      cases List.mem_singleton.1 h
      refine .inl ⟨Nat.lt_succ_of_le hascii, Char.ext (UInt32.toNat_inj.1 ?_)⟩
      exact hbyte c.val.toNat (by omega)
  · next hbeyond =>
      -- every byte of a longer encoding is some number plus 128 or more
      have hhigh (n : Nat) (hn : n < 256) (hmost : 128 ≤ n) : Shows c (.ofUInt8 (.ofNat n)) := by
        refine .inr ⟨Nat.lt_of_not_le hbeyond, ?_⟩
        show 128 ≤ (UInt8.ofNat n).toUInt32.toNat
        rw [hbyte n hn]
        exact hmost
      split at h
      · simp only [List.mem_cons, List.not_mem_nil, or_false] at h
        rcases h with rfl | rfl <;> exact hhigh _ (by omega) (by omega)
      split at h
      · simp only [List.mem_cons, List.not_mem_nil, or_false] at h
        rcases h with rfl | rfl | rfl <;> exact hhigh _ (by omega) (by omega)
      · simp only [List.mem_cons, List.not_mem_nil, or_false] at h
        rcases h with rfl | rfl | rfl | rfl <;> exact hhigh _ (by omega) (by omega)

/-- A test that does not tell characters beyond ASCII apart. -/
def Coarse (p : Char → Bool) : Prop :=
  ∀ c d, 128 ≤ c.toNat → 128 ≤ d.toNat → p d = p c

/-- A test with one answer for all of them. -/
theorem Coarse.of_const {p : Char → Bool} {answer : Bool} (h : ∀ c, 128 ≤ c.toNat → p c = answer) :
    Coarse p :=
  fun c d hc hd => (h d hd).trans (h c hc).symm

theorem Coarse.eq_of_shows {p : Char → Bool} (hp : Coarse p) {c d : Char} (h : Shows c d) :
    p d = p c := by
  rcases h with ⟨_, rfl⟩ | ⟨hc, hd⟩
  · rfl
  · exact hp c d hc hd

end Text

/-! ## The reader -/

/-- A place in a text as a byte offset. -/
structure ByteCursor where
  offset : Nat
  position : Position
deriving DecidableEq

namespace ByteCursor

section Reader

variable (text : List Char)

/-- The byte at the cursor, taken for a character. -/
def peek? (cursor : ByteCursor) : Option Char :=
  ((Text.bytes text)[cursor.offset]?).map Char.ofUInt8

/-- Moves over one byte. -/
def next (cursor : ByteCursor) : ByteCursor :=
  match cursor.peek? text with
  | none => cursor
  | some c =>
      if c = '\n' then ⟨cursor.offset + 1, cursor.position.line + 1, 1⟩
      else ⟨cursor.offset + 1, cursor.position.line, cursor.position.column + 1⟩

theorem offset_next {cursor : ByteCursor} {c : Char} (h : cursor.peek? text = some c) :
    (cursor.next text).offset = cursor.offset + 1 ∧ cursor.offset < (Text.bytes text).length := by
  constructor
  · rw [next, h]
    simp only
    split <;> rfl
  · obtain ⟨b, hb, _⟩ := Option.map_eq_some_iff.1 h
    exact (List.getElem?_eq_some_iff.1 hb).1

/-- Moves over the longest run of bytes that satisfy `p`. -/
def skipWhile (p : Char → Bool) (cursor : ByteCursor) : ByteCursor :=
  match _hpeek : cursor.peek? text with
  | none => cursor
  | some c => if p c then skipWhile p (cursor.next text) else cursor
termination_by (Text.bytes text).length - cursor.offset
decreasing_by
  have hnext := offset_next text _hpeek
  omega

/-- The whole character at the cursor, and the place behind it.  It fails inside a
character. -/
def decode? (cursor : ByteCursor) : Option (Char × ByteCursor) := do
  let rest ← Text.dropBytes? cursor.offset text
  let c ← rest.head?
  if c = '\n' then return (c, cursor.next text)
  else
    return (c, ⟨cursor.offset + c.utf8Size, cursor.position.line, cursor.position.column + 1⟩)

/-- The text from one cursor to another.  It fails if one of them is inside a
character. -/
def slice? (cursor behind : ByteCursor) : Option (List Char) :=
  Text.slice? text cursor.offset behind.offset

/-- The span from `first` to just before the cursor. -/
def spanFrom (cursor : ByteCursor) (first : Position) : Span :=
  ⟨first, cursor.position.line, max (cursor.position.column - 1) 1⟩

/-- Moves over blanks and a comment. -/
def skipBlanks (cursor : ByteCursor) : ByteCursor :=
  let cursor := cursor.skipWhile text Cursor.isBlank
  if cursor.peek? text = some '/' ∧ (cursor.next text).peek? text = some '/' then
    cursor.skipWhile text (· != '\n')
  else
    cursor

/-- A token or skipped text, the complaints about it, and the place behind. -/
structure Scan where
  kind : Option Token.Kind
  complaints : List Complaint
  cursor : ByteCursor
deriving DecidableEq

/-- Reads a word, which is cut out of the text. -/
def scanWord? (cursor : ByteCursor) : Option Scan := do
  let behind := cursor.skipWhile text Cursor.continuesWord
  let word ← cursor.slice? text behind
  return ⟨some (.ofWord (String.ofList word)), [], behind⟩

/-- Reads a number, which is cut out of the text. -/
def scanNumber? (cursor : ByteCursor) : Option Scan := do
  let whole := cursor.skipWhile text Char.isDigit
  let point := whole.next text
  if whole.peek? text = some '.' ∧ (point.peek? text).any Char.isDigit then
    let behind := point.skipWhile text Char.isDigit
    let digits ← cursor.slice? text behind
    let value :=
      Number.readReal (digits.takeWhile Char.isDigit) (digits.dropWhile Char.isDigit).tail
    return ⟨some (.real value), [], behind⟩
  else
    let digits ← cursor.slice? text whole
    if Number.inRange (Number.ofDigits digits) then
      return ⟨some (.integer (Number.ofDigits digits)), [], whole⟩
    else
      return ⟨some (.integer 0),
        [⟨.integerTooLarge (String.ofList digits), whole.spanFrom cursor.position⟩], whole⟩

/-- Reads an escape sequence.  Only an unknown one is decoded. -/
def scanEscape? (quote : Char) (cursor : ByteCursor) :
    Option (Option Char × List Complaint × ByteCursor) :=
  let behind := cursor.next text
  match behind.peek? text with
  | none => some (none, [], behind)
  | some c =>
      if c = '\n' then some (none, [], behind)
      else
        match Cursor.escape? quote c with
        | some value => some (some value, [], behind.next text)
        | none => do
            let (c, stop) ← behind.decode? text
            return (some c, [⟨.invalidEscape c, stop.spanFrom cursor.position⟩], stop)

/-- Reads the characters of a string up to its closing quote or the end of the
line. -/
def scanStringBody? (opening : Position) :
    (fuel : Nat) → ByteCursor → Option (List Char × List Complaint × ByteCursor)
  | 0, _ => none
  | fuel + 1, cursor =>
      match cursor.peek? text with
      | none => some ([], [⟨.unterminatedString, cursor.spanFrom opening⟩], cursor)
      | some c =>
          if c = '\n' then some ([], [⟨.unterminatedString, cursor.spanFrom opening⟩], cursor)
          else if c = '"' then some ([], [], cursor.next text)
          else if c = '\\' then do
            let (value, complaints, cursor) ← cursor.scanEscape? text '"'
            let (values, more, cursor) ← scanStringBody? opening fuel cursor
            return (value.toList ++ values, complaints ++ more, cursor)
          else do
            let (c, cursor) ← cursor.decode? text
            let (values, complaints, cursor) ← scanStringBody? opening fuel cursor
            return (c :: values, complaints, cursor)

/-- Reads a string. -/
def scanString? (cursor : ByteCursor) : Option Scan := do
  let (values, complaints, behind) ←
    scanStringBody? text cursor.position ((Text.bytes text).length + 1) (cursor.next text)
  return ⟨some (.string (String.ofList values)), complaints, behind⟩

/-- Reads what stands between the quotes of a character literal. -/
def scanCharacterBody? (cursor : ByteCursor) :
    Option (Option Char × List Complaint × ByteCursor) :=
  match cursor.peek? text with
  | none => some (none, [], cursor)
  | some c =>
      if c = '\\' then cursor.scanEscape? text '\''
      else if c = '\n' || c = '\'' then some (none, [], cursor)
      else do
        let (c, cursor) ← cursor.decode? text
        return (some c, [], cursor)

/-- Moves over a closing single quote, if the cursor is on one. -/
def closeQuote? (cursor : ByteCursor) : Option ByteCursor :=
  if cursor.peek? text = some '\'' then some (cursor.next text) else none

/-- Reads a character literal.  The rest of a malformed one is skipped byte by
byte. -/
def scanCharacter? (cursor : ByteCursor) : Option Scan := do
  let (value, complaints, behind) ← (cursor.next text).scanCharacterBody? text
  let kind := Token.Kind.character (value.getD '\x00')
  match behind.closeQuote? text with
  | some closed => return ⟨some kind, complaints, closed⟩
  | none =>
      let skipped := behind.skipWhile text fun c => c != '\'' && c != '\n'
      return ⟨some kind, complaints ++ [⟨.malformedCharacter, behind.spanFrom cursor.position⟩],
        (skipped.closeQuote? text).getD skipped⟩

/-- Reads the token that starts with the byte `c`, which is the one at the cursor. -/
def scan? (c : Char) (cursor : ByteCursor) : Option Scan :=
  if c = '\n' then some ⟨some .newline, [], cursor.next text⟩
  else
    match Cursor.sign? c with
    | some kind => some ⟨some kind, [], cursor.next text⟩
    | none =>
        if c = '=' then
          let behind := cursor.next text
          if behind.peek? text = some '=' then some ⟨some .equal, [], behind.next text⟩
          else some ⟨some .assign, [], behind⟩
        else if c = '!' && (cursor.next text).peek? text = some '=' then
          some ⟨some .notEqual, [], (cursor.next text).next text⟩
        else if c.isDigit then cursor.scanNumber? text
        else if Cursor.startsWord c then cursor.scanWord? text
        else if c = '"' then cursor.scanString? text
        else if c = '\'' then cursor.scanCharacter? text
        else do
          let (c, behind) ← cursor.decode? text
          return ⟨none, [⟨.unexpectedCharacter c, behind.spanFrom cursor.position⟩], behind⟩

/-- The end-of-file token at the cursor. -/
def endToken (cursor : ByteCursor) : Token := ⟨.endOfFile, .point cursor.position⟩

end Reader

end ByteCursor

/-- Reads tokens from the cursor on. -/
def Source.lexBytesFrom? (source : Source) :
    (fuel : Nat) → ByteCursor → Diagnostics → Option Lexed
  | 0, _, _ => none
  | fuel + 1, cursor, log =>
      let text := source.text.toList
      if log.atErrorLimit then some ⟨[cursor.endToken], log⟩
      else
        let cursor := cursor.skipBlanks text
        match cursor.peek? text with
        | none => some ⟨[cursor.endToken], log⟩
        | some c => do
            let scan ← cursor.scan? text c
            let lexed ← source.lexBytesFrom? fuel scan.cursor
              (log.complainAll source scan.complaints)
            match scan.kind with
            | some kind =>
                let token : Token := ⟨kind, scan.cursor.spanFrom cursor.position⟩
                return { lexed with tokens := token :: lexed.tokens }
            | none => return lexed

/-- The tokens of a source, read byte by byte. -/
def Source.lexBytes? (source : Source) : Option Lexed :=
  source.lexBytesFrom? (Text.byteLength source.text.toList + 1) ⟨0, .origin⟩ ∅

end UnitScript
