import UnitScript.Diagnostic.Problem
import UnitScript.Number.Integer

/-!
# From text to tokens

The lexer reads a script from left to right.  Blanks and line comments
separate tokens; newlines are tokens.  A character that starts no token is
complained about and skipped, so one pass finds several problems; when as many
errors were found as are kept, reading stops.

* `Cursor` is a place in the text and what follows it.
* `Cursor.scan` reads one token from a place that is not a blank.
* `Source.lex` reads the whole text.  The last token, and no other, is the end
  of the file.

Columns count characters, with two exceptions: inside a comment and inside
the skipped rest of a malformed character literal they count bytes.
-/

namespace UnitScript

/-- A place in a text and the characters from there on. -/
structure Cursor where
  rest : List Char
  position : Position
deriving DecidableEq

namespace Cursor

/-! ## Moving -/

/-- The start of a text. -/
def start (text : String) : Cursor := ⟨text.toList, .origin⟩

/-- Moves over characters of the current line, `width` columns in all. -/
def moveTo (cursor : Cursor) (rest : List Char) (width : Nat) : Cursor :=
  ⟨rest, cursor.position.line, cursor.position.column + width⟩

/-- Moves over one character of the current line. -/
def next (cursor : Cursor) : Cursor := cursor.moveTo cursor.rest.tail 1

/-- Moves over a newline. -/
def nextLine (cursor : Cursor) : Cursor := ⟨cursor.rest.tail, cursor.position.line + 1, 1⟩

/-- Moves over the longest run of characters that satisfy `p`, one column
each.  The run must not hold a newline. -/
def skipWhile (p : Char → Bool) (cursor : Cursor) : Cursor :=
  cursor.moveTo (cursor.rest.dropWhile p) (cursor.rest.takeWhile p).length

/-- Moves over the longest run of characters that satisfy `p`, one column for
each byte.  The run must not hold a newline. -/
def skipBytesWhile (p : Char → Bool) (cursor : Cursor) : Cursor :=
  cursor.moveTo (cursor.rest.dropWhile p) (Text.byteLength (cursor.rest.takeWhile p))

/-- The span from `first` to just before the cursor. -/
def spanFrom (cursor : Cursor) (first : Position) : Span :=
  ⟨first, cursor.position.line, max (cursor.position.column - 1) 1⟩

/-- Whether a character separates tokens and nothing else. -/
def isBlank (c : Char) : Bool := c = ' ' || c = '\t' || c = '\r'

/-- Moves over blanks and, behind them, a comment up to the end of its line. -/
def skipBlanks (cursor : Cursor) : Cursor :=
  let cursor := cursor.skipWhile isBlank
  match cursor.rest with
  | '/' :: '/' :: _ => cursor.skipBytesWhile (· != '\n')
  | _ => cursor

/-! ## Literals and words -/

/-- A token or skipped text, the complaints about it, and the place behind. -/
structure Scan where
  kind : Option Token.Kind
  complaints : List Complaint
  cursor : Cursor
deriving DecidableEq

/-- A token without complaints. -/
def clean (kind : Token.Kind) (cursor : Cursor) : Scan := ⟨some kind, [], cursor⟩

/-- Whether a character can start a word. -/
def startsWord (c : Char) : Bool := c.isAlpha || c = '_'

/-- Whether a character can go on with a word. -/
def continuesWord (c : Char) : Bool := c.isAlphanum || c = '_'

/-- Reads a word: a reserved word or a name. -/
def scanWord (cursor : Cursor) : Scan :=
  clean (.ofWord (String.ofList (cursor.rest.takeWhile continuesWord)))
    (cursor.skipWhile continuesWord)

/-- Reads a number.  A point belongs to it only when a digit follows. -/
def scanNumber (cursor : Cursor) : Scan :=
  let whole := cursor.rest.takeWhile Char.isDigit
  let behind := cursor.skipWhile Char.isDigit
  let integer : Scan :=
    let value := Number.ofDigits whole
    if Number.inRange value then clean (.integer value) behind
    else
      ⟨some (.integer 0),
        [⟨.integerTooLarge (String.ofList whole), behind.spanFrom cursor.position⟩], behind⟩
  match behind.rest with
  | '.' :: c :: _ =>
      if c.isDigit then
        let point := behind.next
        clean (.real (Number.readReal whole (point.rest.takeWhile Char.isDigit)))
          (point.skipWhile Char.isDigit)
      else
        integer
  | _ => integer

/-- What a backslash and `c` stand for inside quotes `quote`. -/
def escape? (quote c : Char) : Option Char :=
  if c = 'n' then some '\n'
  else if c = 't' then some '\t'
  else if c = 'r' then some '\r'
  else if c = '\\' then some '\\'
  else if c = quote then some quote
  else none

/-- Reads an escape sequence; the cursor is on its backslash.  An unknown
sequence stands for its second character.  A backslash at the end of the line
stands for nothing. -/
def scanEscape (quote : Char) (cursor : Cursor) : Option Char × List Complaint × Cursor :=
  let behind := cursor.next
  match behind.rest with
  | [] => (none, [], behind)
  | c :: _ =>
      if c = '\n' then (none, [], behind)
      else
        match escape? quote c with
        | some value => (some value, [], behind.next)
        | none =>
            (some c, [⟨.invalidEscape c, behind.next.spanFrom cursor.position⟩], behind.next)

/-- Reads the characters of a string up to its closing quote or the end of the
line.  `fuel` bounds the number of characters. -/
def scanStringBody (opening : Position) :
    (fuel : Nat) → Cursor → List Char × List Complaint × Cursor
  | 0, cursor => ([], [⟨.unterminatedString, cursor.spanFrom opening⟩], cursor)
  | fuel + 1, cursor =>
      match cursor.rest with
      | [] => ([], [⟨.unterminatedString, cursor.spanFrom opening⟩], cursor)
      | c :: _ =>
          if c = '\n' then ([], [⟨.unterminatedString, cursor.spanFrom opening⟩], cursor)
          else if c = '"' then ([], [], cursor.next)
          else if c = '\\' then
            let (value, complaints, cursor) := scanEscape '"' cursor
            let (values, more, cursor) := scanStringBody opening fuel cursor
            (value.toList ++ values, complaints ++ more, cursor)
          else
            let (values, complaints, cursor) := scanStringBody opening fuel cursor.next
            (c :: values, complaints, cursor)

/-- Reads a string; the cursor is on its opening quote. -/
def scanString (cursor : Cursor) : Scan :=
  let (values, complaints, behind) :=
    scanStringBody cursor.position cursor.rest.length cursor.next
  ⟨some (.string (String.ofList values)), complaints, behind⟩

/-- Reads what stands between the quotes of a character literal: a character,
an escape sequence, or nothing before a closing quote or the end of the line. -/
def scanCharacterBody (cursor : Cursor) : Option Char × List Complaint × Cursor :=
  match cursor.rest with
  | [] => (none, [], cursor)
  | c :: _ =>
      if c = '\\' then scanEscape '\'' cursor
      else if c = '\n' || c = '\'' then (none, [], cursor)
      else (some c, [], cursor.next)

/-- Moves over a closing single quote, if the cursor is on one. -/
def closeQuote? (cursor : Cursor) : Option Cursor :=
  match cursor.rest with
  | '\'' :: _ => some cursor.next
  | _ => none

/-- Reads a character literal; the cursor is on its opening quote.  Without a
closing quote right behind the character, the literal is skipped up to the
next quote or the end of the line.  Nothing between the quotes stands for the
null character. -/
def scanCharacter (cursor : Cursor) : Scan :=
  let (value, complaints, behind) := scanCharacterBody cursor.next
  let kind := Token.Kind.character (value.getD '\x00')
  match behind.closeQuote? with
  | some closed => ⟨some kind, complaints, closed⟩
  | none =>
      let skipped := behind.skipBytesWhile fun c => c != '\'' && c != '\n'
      ⟨some kind, complaints ++ [⟨.malformedCharacter, behind.spanFrom cursor.position⟩],
        skipped.closeQuote?.getD skipped⟩

/-! ## Tokens -/

/-- The token that a single character is. -/
def sign? : Char → Option Token.Kind
  | '+' => some .plus
  | '-' => some .minus
  | '*' => some .star
  | '/' => some .slash
  | '^' => some .caret
  | '(' => some .leftParen
  | ')' => some .rightParen
  | '[' => some .leftBracket
  | ']' => some .rightBracket
  | '\x7b' => some .leftBrace
  | '\x7d' => some .rightBrace
  | _ => none

/-- Reads the token that starts with `c`, which is the character at the
cursor and no blank. -/
def scan (c : Char) (cursor : Cursor) : Scan :=
  if c = '\n' then clean .newline cursor.nextLine
  else
    match sign? c with
    | some kind => clean kind cursor.next
    | none =>
        if c = '=' then
          if cursor.next.rest.head? = some '=' then clean .equal cursor.next.next
          else clean .assign cursor.next
        else if c = '!' && cursor.next.rest.head? = some '=' then
          clean .notEqual cursor.next.next
        else if c.isDigit then cursor.scanNumber
        else if startsWord c then cursor.scanWord
        else if c = '"' then cursor.scanString
        else if c = '\'' then cursor.scanCharacter
        else
          ⟨none, [⟨.unexpectedCharacter c, cursor.next.spanFrom cursor.position⟩], cursor.next⟩

/-- The end-of-file token at the cursor. -/
def endToken (cursor : Cursor) : Token := ⟨.endOfFile, .point cursor.position⟩

end Cursor

/-- The tokens of a text, and what was wrong with it. -/
structure Lexed where
  tokens : List Token
  log : Diagnostics

/-- Reads tokens from the cursor on.  `fuel` bounds the number of characters
left, and one more for the end. -/
def Source.lexFrom (source : Source) : (fuel : Nat) → Cursor → Diagnostics → Lexed
  | 0, cursor, log => ⟨[cursor.endToken], log⟩
  | fuel + 1, cursor, log =>
      if log.atErrorLimit then ⟨[cursor.endToken], log⟩
      else
        let cursor := cursor.skipBlanks
        match cursor.rest with
        | [] => ⟨[cursor.endToken], log⟩
        | c :: _ =>
            let scan := cursor.scan c
            let lexed :=
              source.lexFrom fuel scan.cursor (log.complainAll source scan.complaints)
            match scan.kind with
            | some kind =>
                let token : Token := ⟨kind, scan.cursor.spanFrom cursor.position⟩
                { lexed with tokens := token :: lexed.tokens }
            | none => lexed

/-- The tokens of a source. -/
def Source.lex (source : Source) : Lexed :=
  let cursor := Cursor.start source.text
  source.lexFrom (cursor.rest.length + 1) cursor ∅

end UnitScript
