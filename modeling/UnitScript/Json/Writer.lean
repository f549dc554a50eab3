import UnitScript.Json.Basic

/-!
# Writing JSON

`Json.compact` writes a value without blanks, `Json.pretty` with one field or
element on each line and two blanks of indentation for each level.  Empty
arrays and objects are written without blanks in both forms.

In strings the quote, the backslash and the control characters below the blank
are escaped, the latter by a letter where there is one; all other characters
stand for themselves.
-/

namespace UnitScript.Json

/-- The escape sequence of a character, or the character itself. -/
def escapeChar (c : Char) : List Char :=
  if c = '"' then ['\\', '"']
  else if c = '\\' then ['\\', '\\']
  else if c = '\n' then ['\\', 'n']
  else if c = '\t' then ['\\', 't']
  else if c = '\r' then ['\\', 'r']
  else if c.toNat = 8 then ['\\', 'b']
  else if c.toNat = 12 then ['\\', 'f']
  else if c.toNat < 32 then
    ['\\', 'u', '0', '0', Nat.digitChar (c.toNat / 16), Nat.digitChar (c.toNat % 16)]
  else [c]

/-- A string in quotes. -/
def quoted (s : String) : List Char :=
  '"' :: (s.toList.flatMap escapeChar ++ ['"'])

/-- How values are laid out: what is written before each element, which
depends on the level, and what separates a key from its value. -/
structure Layout where
  newline : Nat → List Char
  colon : List Char

/-- Everything on one line, without blanks. -/
def Layout.compact : Layout := ⟨fun _ => [], [':']⟩

/-- One element on each line, indented by two blanks for each level. -/
def Layout.pretty : Layout := ⟨fun level => '\n' :: List.replicate (2 * level) ' ', [':', ' ']⟩

mutual

/-- Writes a value at a level of nesting. -/
def write (layout : Layout) (level : Nat) : Json → List Char
  | .null => ['n', 'u', 'l', 'l']
  | .bool true => ['t', 'r', 'u', 'e']
  | .bool false => ['f', 'a', 'l', 's', 'e']
  | .integer n => (toString n).toList
  | .decimal spelling => spelling.toList
  | .string s => quoted s
  | .array [] => ['[', ']']
  | .array (head :: tail) =>
      '[' :: (layout.newline (level + 1) ++ write layout (level + 1) head
        ++ writeElements layout level tail)
  | .object [] => ['\x7b', '\x7d']
  | .object ((key, value) :: tail) =>
      '\x7b' :: (layout.newline (level + 1) ++ quoted key ++ layout.colon
        ++ write layout (level + 1) value ++ writeFields layout level tail)

/-- Writes the elements behind the first one, and the closing bracket. -/
def writeElements (layout : Layout) (level : Nat) : List Json → List Char
  | [] => layout.newline level ++ [']']
  | head :: tail =>
      ',' :: (layout.newline (level + 1) ++ write layout (level + 1) head
        ++ writeElements layout level tail)

/-- Writes the fields behind the first one, and the closing brace. -/
def writeFields (layout : Layout) (level : Nat) : List (String × Json) → List Char
  | [] => layout.newline level ++ ['\x7d']
  | (key, value) :: tail =>
      ',' :: (layout.newline (level + 1) ++ quoted key ++ layout.colon
        ++ write layout (level + 1) value ++ writeFields layout level tail)

end

/-- A value on one line, without blanks. -/
def compact (json : Json) : String := String.ofList (write .compact 0 json)

/-- A value with one element on each line. -/
def pretty (json : Json) : String := String.ofList (write .pretty 0 json)

end UnitScript.Json
