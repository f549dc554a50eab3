import UnitScript.Json.Basic

/-!
# Reading JSON

`Json.parse?` reads one value that fills a whole text, with blanks, tabs and
line ends around its parts.  Strings may use any escape sequence of the
format; two escaped surrogates stand for one character.
-/

namespace UnitScript.Json

/-- Whether a character may stand between the parts of a value. -/
def isSpace (c : Char) : Bool := c = ' ' || c = '\n' || c = '\t' || c = '\r'

/-- The text behind any spaces. -/
def skipSpace (text : List Char) : List Char := text.dropWhile isSpace

/-! ## Strings -/

/-- The value of a hexadecimal digit. -/
def hexDigit? (c : Char) : Option Nat :=
  if c.isDigit then some (c.toNat - '0'.toNat)
  else if 'a' ≤ c ∧ c ≤ 'f' then some (c.toNat - 'a'.toNat + 10)
  else if 'A' ≤ c ∧ c ≤ 'F' then some (c.toNat - 'A'.toNat + 10)
  else none

/-- The value of four hexadecimal digits. -/
def hex4? (a b c d : Char) : Option Nat := do
  return ((← hexDigit? a) * 16 + (← hexDigit? b)) * 256 + (← hexDigit? c) * 16 + (← hexDigit? d)

/-- What a backslash and `c` stand for. -/
def unescape? (c : Char) : Option Char :=
  if c = '"' || c = '\\' || c = '/' then some c
  else if c = 'n' then some '\n'
  else if c = 't' then some '\t'
  else if c = 'r' then some '\r'
  else if c = 'b' then some (Char.ofNat 8)
  else if c = 'f' then some (Char.ofNat 12)
  else none

/-- Whether a code unit is the first half of a pair. -/
def isHighSurrogate (n : Nat) : Bool := decide (0xD800 ≤ n ∧ n < 0xDC00)

/-- Whether a code unit is the second half of a pair. -/
def isLowSurrogate (n : Nat) : Bool := decide (0xDC00 ≤ n ∧ n < 0xE000)

/-- The character that a pair of code units stands for. -/
def joinSurrogates (high low : Nat) : Char :=
  Char.ofNat (0x10000 + (high - 0xD800) * 0x400 + (low - 0xDC00))

/-- Reads the rest of a string up to its closing quote. -/
def stringBody? : List Char → Option (List Char × List Char)
  | '"' :: rest => some ([], rest)
  | '\\' :: 'u' :: a :: b :: c :: d :: rest => do
      let unit ← hex4? a b c d
      if isHighSurrogate unit then
        match rest with
        | '\\' :: 'u' :: e :: f :: g :: h :: rest =>
            let low ← hex4? e f g h
            if isLowSurrogate low then
              let (chars, rest) ← stringBody? rest
              return (joinSurrogates unit low :: chars, rest)
            else
              none
        | _ => none
      else if isLowSurrogate unit then none
      else
        let (chars, rest) ← stringBody? rest
        return (Char.ofNat unit :: chars, rest)
  | '\\' :: c :: rest => do
      let value ← unescape? c
      let (chars, rest) ← stringBody? rest
      return (value :: chars, rest)
  | c :: rest =>
      if c.toNat < 32 || c = '\\' then none
      else do
        let (chars, rest) ← stringBody? rest
        return (c :: chars, rest)
  | [] => none

/-! ## Numbers -/

/-- Splits off the digits at the front. -/
def splitDigits (text : List Char) : List Char × List Char :=
  (text.takeWhile Char.isDigit, text.dropWhile Char.isDigit)

/-- The number that a run of digits denotes. -/
def digitsValue (digits : List Char) : Nat :=
  digits.foldl (fun n c => 10 * n + (c.toNat - '0'.toNat)) 0

/-- Reads a fraction, if there is one: its spelling and the text behind. -/
def fraction? : List Char → Option (List Char × List Char)
  | '.' :: rest =>
      match splitDigits rest with
      | ([], _) => none
      | (digits, rest) => some ('.' :: digits, rest)
  | text => some ([], text)

/-- Reads the sign and the digits of an exponent behind the letter `mark`. -/
def exponentBody? (mark : Char) (text : List Char) : Option (List Char × List Char) :=
  let (sign, rest) :=
    match text with
    | '+' :: rest => (['+'], rest)
    | '-' :: rest => (['-'], rest)
    | rest => ([], rest)
  match splitDigits rest with
  | ([], _) => none
  | (digits, rest) => some (mark :: sign ++ digits, rest)

/-- Reads an exponent, if there is one: its spelling and the text behind. -/
def exponent? : List Char → Option (List Char × List Char)
  | 'e' :: rest => exponentBody? 'e' rest
  | 'E' :: rest => exponentBody? 'E' rest
  | text => some ([], text)

/-- Reads a number whose sign was read already. -/
def number? (negative : Bool) (text : List Char) : Option (Json × List Char) := do
  let (digits, rest) := splitDigits text
  match digits with
  | [] => none
  | '0' :: _ :: _ => none
  | _ =>
      let (fraction, rest) ← fraction? rest
      let (exponent, rest) ← exponent? rest
      let value : Int := if negative then -(digitsValue digits : Int) else digitsValue digits
      if fraction.isEmpty && exponent.isEmpty && !(negative && value == 0) then
        return (.integer value, rest)
      else
        let sign := if negative then ['-'] else []
        return (.decimal (String.ofList (sign ++ digits ++ fraction ++ exponent)), rest)

/-! ## Values -/

mutual

/-- Reads a value.  `fuel` bounds how many values and parts of values are
read. -/
def value? : (fuel : Nat) → List Char → Option (Json × List Char)
  | 0, _ => none
  | fuel + 1, text =>
      match skipSpace text with
      | 'n' :: 'u' :: 'l' :: 'l' :: rest => some (.null, rest)
      | 't' :: 'r' :: 'u' :: 'e' :: rest => some (.bool true, rest)
      | 'f' :: 'a' :: 'l' :: 's' :: 'e' :: rest => some (.bool false, rest)
      | '"' :: rest => do
          let (chars, rest) ← stringBody? rest
          return (.string (String.ofList chars), rest)
      | '[' :: rest =>
          match skipSpace rest with
          | ']' :: rest => some (.array [], rest)
          | rest => do
              let (elements, rest) ← elements? fuel rest
              return (.array elements, rest)
      | '\x7b' :: rest =>
          match skipSpace rest with
          | '\x7d' :: rest => some (.object [], rest)
          | rest => do
              let (fields, rest) ← members? fuel rest
              return (.object fields, rest)
      | '-' :: rest => number? true rest
      | rest => number? false rest

/-- Reads the elements of an array and its closing bracket. -/
def elements? : (fuel : Nat) → List Char → Option (List Json × List Char)
  | 0, _ => none
  | fuel + 1, text => do
      let (head, rest) ← value? fuel text
      match skipSpace rest with
      | ']' :: rest => return ([head], rest)
      | ',' :: rest =>
          let (tail, rest) ← elements? fuel rest
          return (head :: tail, rest)
      | _ => none

/-- Reads the fields of an object and its closing brace. -/
def members? : (fuel : Nat) → List Char → Option (List (String × Json) × List Char)
  | 0, _ => none
  | fuel + 1, text =>
      match skipSpace text with
      | '"' :: rest => do
          let (key, rest) ← stringBody? rest
          match skipSpace rest with
          | ':' :: rest =>
              let (value, rest) ← value? fuel rest
              let field := (String.ofList key, value)
              match skipSpace rest with
              | '\x7d' :: rest => return ([field], rest)
              | ',' :: rest =>
                  let (tail, rest) ← members? fuel rest
                  return (field :: tail, rest)
              | _ => none
          | _ => none
      | _ => none

end

/-- Reads a value that fills a whole text. -/
def parse? (text : String) : Option Json := do
  let chars := text.toList
  let (value, rest) ← value? (2 * chars.length + 2) chars
  if (skipSpace rest).isEmpty then return value else none

end UnitScript.Json
