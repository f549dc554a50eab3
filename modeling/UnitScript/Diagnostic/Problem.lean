import UnitScript.Diagnostic.Log
import UnitScript.Expr.Basic
import UnitScript.Token.Basic
import UnitScript.Units.Dimension

/-!
# Problems of a script

`Problem` lists everything that the language can find wrong with a script
short of stopping it while it runs.  Its code, severity, wording and
suggestion are functions of the problem.

* `Complaint` is a problem at a place.
* `Diagnostics.complain` records complaints.
-/

namespace UnitScript

/-- How many blocks and value expressions may be open at once. -/
def maxNesting : Nat := 64

/-- Something wrong with a script. -/
inductive Problem where
  -- characters
  | unexpectedCharacter (found : Char)
  | unterminatedString
  | malformedCharacter
  | invalidEscape (found : Char)
  | integerTooLarge (digits : String)
  -- grammar
  | expected (wanted found : Token.Kind)
  | expectedExpression (found : Token.Kind)
  | expectedUnit (found : Token.Kind)
  | expectedExponent (found : Token.Kind)
  | expectedStatementEnd (found : Token.Kind)
  | unmatchedBrace
  | notAssignable
  | deepExpression
  | deepBlock
  | unclosedBlock
  -- units
  | unknownUnit (symbol : String)
  | bareNumber (value : UnitNumber)
  | exponentOutOfRange (value : Int)
  | realExponent (value : Float)
  | nonLiteralExponent (found : UnitExpr)
  -- dimensions
  | sumMismatch (left right : Dimension)
  | differenceMismatch (left right : Dimension)
  | downgrade (name : String) (before after : Dimension)
  | castMismatch (held : Dimension) (unit : UnitExpr) (wanted : Dimension)
deriving DecidableEq

namespace Problem

/-- The code a problem is reported under. -/
def code : Problem → Code
  | .unexpectedCharacter _ => .unexpectedCharacter
  | .unterminatedString => .unterminatedLiteral
  | .malformedCharacter => .unterminatedLiteral
  | .invalidEscape _ => .invalidEscape
  | .integerTooLarge _ => .numberOutOfRange
  | .expected .. => .unexpectedToken
  | .expectedExpression _ => .unexpectedToken
  | .expectedUnit _ => .unexpectedToken
  | .expectedExponent _ => .unexpectedToken
  | .expectedStatementEnd _ => .unexpectedToken
  | .unmatchedBrace => .unexpectedToken
  | .notAssignable => .unexpectedToken
  | .deepExpression => .unexpectedToken
  | .deepBlock => .unexpectedToken
  | .unclosedBlock => .unclosedBlock
  | .unknownUnit _ => .unknownUnit
  | .bareNumber _ => .bareNumberInUnit
  | .exponentOutOfRange _ => .nonIntegerExponent
  | .realExponent _ => .nonIntegerExponent
  | .nonLiteralExponent _ => .nonLiteralExponent
  | .sumMismatch .. => .dimensionMismatch
  | .differenceMismatch .. => .dimensionMismatch
  | .downgrade .. => .dimensionDowngrade
  | .castMismatch .. => .castDimensionMismatch

/-- Problems with dimensions are warnings, all others errors. -/
def severity : Problem → Severity
  | .sumMismatch .. => .warning
  | .differenceMismatch .. => .warning
  | .downgrade .. => .warning
  | .castMismatch .. => .warning
  | _ => .error

/-- The wording of a problem. -/
def message : Problem → String
  | .unexpectedCharacter found => "unexpected character '" ++ found.toString ++ "'"
  | .unterminatedString => "unterminated string literal"
  | .malformedCharacter => "character literal must hold exactly one character"
  | .invalidEscape found => "invalid escape sequence '\\" ++ found.toString ++ "'"
  | .integerTooLarge digits => "integer literal '" ++ digits ++ "' does not fit in 64 bits"
  | .expected wanted found => "expected '" ++ wanted.text ++ "', got '" ++ found.text ++ "'"
  | .expectedExpression found => "expected expression, got '" ++ found.text ++ "'"
  | .expectedUnit found => "expected a unit, got '" ++ found.text ++ "'"
  | .expectedExponent found => "expected a number after '-', got '" ++ found.text ++ "'"
  | .expectedStatementEnd found => "expected end of statement, got '" ++ found.text ++ "'"
  | .unmatchedBrace => "unmatched '" ++ Token.Kind.rightBrace.text ++ "'"
  | .notAssignable => "only a plain name can be assigned to"
  | .deepExpression => "expression nests deeper than " ++ toString maxNesting ++ " levels"
  | .deepBlock => "blocks nest deeper than " ++ toString maxNesting ++ " levels"
  | .unclosedBlock => "block is never closed"
  | .unknownUnit symbol => "unknown unit '" ++ symbol ++ "'"
  | .bareNumber value => "bare number '" ++ value.text ++ "' in unit expression"
  | .exponentOutOfRange value => "exponent " ++ toString value ++ " is out of range"
  | .realExponent value => "unit exponent must be an integer, found " ++ Number.realText value
  | .nonLiteralExponent found =>
      "unit exponent must be an integer literal, found '" ++ found.text ++ "'"
  | .sumMismatch left right => "cannot add " ++ left.text ++ " and " ++ right.text
  | .differenceMismatch left right => "cannot subtract " ++ left.text ++ " and " ++ right.text
  | .downgrade name before after =>
      "'" ++ name ++ "' changes from " ++ before.text ++ " to " ++ after.text
        ++ "; it is now dimensionless"
  | .castMismatch held unit wanted =>
      "cannot express a " ++ held.text ++ " value in '" ++ unit.text ++ "' (" ++ wanted.text ++ ")"

/-- How the script could be mended. -/
def suggestion : Problem → Option String
  | .bareNumber _ => some "use `^` for exponents, e.g. `m^2`"
  | .nonLiteralExponent _ => some "write the exponent as a number, e.g. `m^2`"
  | _ => none

/-- A problem as it is reported. -/
def issue (p : Problem) : Issue := ⟨p.code, p.severity, p.message, p.suggestion⟩

end Problem

/-- A problem at a place. -/
structure Complaint where
  problem : Problem
  span : Span
deriving DecidableEq

namespace Diagnostics

/-- Records a complaint about `source`. -/
def complain (log : Diagnostics) (source : Source) (complaint : Complaint) : Diagnostics :=
  log.report source complaint.problem.issue complaint.span

/-- Records complaints in order. -/
def complainAll (log : Diagnostics) (source : Source) (complaints : List Complaint) :
    Diagnostics :=
  complaints.foldl (fun log complaint => log.complain source complaint) log

end Diagnostics

end UnitScript
