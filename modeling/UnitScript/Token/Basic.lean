import UnitScript.Number.Text
import UnitScript.Span

/-!
# Tokens

A `Token` is a piece of a script with the span it was read from.  Newlines are
tokens, because they separate statements; unit symbols are ordinary
identifiers.

* `Keyword` lists the reserved words, with `Keyword.ofText?` as look-up.
* `Token.Kind` is what a token is, `Token.Kind.text` how messages show it.
-/

namespace UnitScript

/-- A reserved word. -/
inductive Keyword where
  | true
  | false
  | none
deriving DecidableEq

namespace Keyword

/-- Every reserved word. -/
def all : List Keyword := [.true, .false, .none]

/-- How a reserved word is written. -/
def text : Keyword → String
  | .true => "true"
  | .false => "false"
  | .none => "none"

/-- The reserved word written `word`, if there is one. -/
def ofText? (word : String) : Option Keyword :=
  all.find? fun keyword => keyword.text == word

end Keyword

/-- What a token is. -/
inductive Token.Kind where
  | integer (value : Nat)
  | real (value : Float)
  | string (value : String)
  | character (value : Char)
  | keyword (word : Keyword)
  | identifier (name : String)
  | plus
  | minus
  | star
  | slash
  | caret
  | assign
  | equal
  | notEqual
  | leftParen
  | rightParen
  | leftBracket
  | rightBracket
  | leftBrace
  | rightBrace
  | newline
  | endOfFile
deriving DecidableEq

/-- A token and the span it was read from. -/
structure Token where
  kind : Token.Kind
  span : Span
deriving DecidableEq

namespace Token.Kind

/-- How a token is shown in messages. -/
def text : Token.Kind → String
  | .integer n => toString n
  | .real x => Number.realText x
  | .string s => "\"" ++ s ++ "\""
  | .character c => "'" ++ c.toString ++ "'"
  | .keyword word => word.text
  | .identifier name => name
  | .plus => "+"
  | .minus => "-"
  | .star => "*"
  | .slash => "/"
  | .caret => "^"
  | .assign => "="
  | .equal => "=="
  | .notEqual => "!="
  | .leftParen => "("
  | .rightParen => ")"
  | .leftBracket => "["
  | .rightBracket => "]"
  | .leftBrace => "\x7b"
  | .rightBrace => "\x7d"
  | .newline => "newline"
  | .endOfFile => "end of file"

/-- Whether the token is a reserved word. -/
def isKeyword : Token.Kind → Bool
  | .keyword _ => true
  | _ => false

/-- What a word of letters, digits and underscores is: a reserved word or a
name. -/
def ofWord (word : String) : Token.Kind :=
  match Keyword.ofText? word with
  | some reserved => .keyword reserved
  | none => .identifier word

end Token.Kind

end UnitScript
