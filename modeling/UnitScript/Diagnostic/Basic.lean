import UnitScript.Source

/-!
# Diagnostics

A `Diagnostic` says what is wrong with a script, how bad it is and where.  Its
`Code` puts it into a `Category`; the record holds both, so that a diagnostic
that was stored can be read back as it was.

* `Diagnostic.text` is the one-line form.
* `Source.diagnose` fills in the file name and the source line.
-/

namespace UnitScript

/-- How bad a diagnostic is.  Only errors keep a script from running. -/
inductive Severity where
  | error
  | warning
deriving DecidableEq

namespace Severity

/-- The word for a severity. -/
def text : Severity → String
  | .error => "error"
  | .warning => "warning"

/-- The severity with the given word. -/
def ofText? : String → Option Severity
  | "error" => some .error
  | "warning" => some .warning
  | _ => none

end Severity

/-- What part of the language a diagnostic is about. -/
inductive Category where
  | grammar
  | unit
  | dimension
  | runtime
deriving DecidableEq

namespace Category

/-- The word for a category. -/
def text : Category → String
  | .grammar => "syntax"
  | .unit => "unit"
  | .dimension => "dimension"
  | .runtime => "runtime"

/-- The category with the given word. -/
def ofText? : String → Option Category
  | "syntax" => some .grammar
  | "unit" => some .unit
  | "dimension" => some .dimension
  | "runtime" => some .runtime
  | _ => none

end Category

/-- The number of a diagnostic.  Its hundreds give the category. -/
structure Code where
  number : UInt16
deriving DecidableEq

namespace Code

/-- A token that does not fit the grammar. -/
def unexpectedToken : Code := ⟨100⟩

/-- A character that starts no token. -/
def unexpectedCharacter : Code := ⟨101⟩

/-- A string or character literal that is not closed. -/
def unterminatedLiteral : Code := ⟨102⟩

/-- A backslash with a character that it has no meaning before. -/
def invalidEscape : Code := ⟨103⟩

/-- An integer literal that is no script integer. -/
def numberOutOfRange : Code := ⟨104⟩

/-- A block that is not closed. -/
def unclosedBlock : Code := ⟨105⟩

/-- A symbol that names no unit. -/
def unknownUnit : Code := ⟨200⟩

/-- A number where a unit is wanted. -/
def bareNumberInUnit : Code := ⟨201⟩

/-- An exponent that is no integer, or one out of range. -/
def nonIntegerExponent : Code := ⟨202⟩

/-- An exponent that is no number. -/
def nonLiteralExponent : Code := ⟨203⟩

/-- A sum or difference of different dimensions. -/
def dimensionMismatch : Code := ⟨300⟩

/-- A variable that loses its dimension. -/
def dimensionDowngrade : Code := ⟨301⟩

/-- A cast to another dimension. -/
def castDimensionMismatch : Code := ⟨302⟩

/-- A fault that stopped a run. -/
def runtimeFault : Code := ⟨400⟩

/-- The category of a code.  What is outside the known hundreds counts as
grammar. -/
def category (code : Code) : Category :=
  match code.number.toNat / 100 with
  | 2 => .unit
  | 3 => .dimension
  | 4 => .runtime
  | _ => .grammar

/-- The code as it is shown. -/
def text (code : Code) : String := "E" ++ toString code.number.toNat

end Code

/-- What is wrong, apart from the place. -/
structure Issue where
  code : Code
  severity : Severity
  message : String
  suggestion : Option String
deriving DecidableEq

/-- A problem of a script, with its place and the source line it starts on. -/
structure Diagnostic where
  file : String
  code : Code
  severity : Severity
  category : Category
  message : String
  span : Span
  sourceLine : String
  suggestion : Option String
deriving DecidableEq

namespace Diagnostic

/-- Whether the diagnostic keeps a script from running. -/
def isError (d : Diagnostic) : Bool := d.severity = .error

/-- The one-line form. -/
def text (d : Diagnostic) : String :=
  d.file ++ ":" ++ d.span.text ++ ": " ++ d.severity.text ++ "[" ++ d.code.text ++ "]: "
    ++ d.message

end Diagnostic

/-- The diagnostic for an issue at `span`, found in the file `file` on the
line `sourceLine`. -/
def Issue.locate (issue : Issue) (file : String) (span : Span) (sourceLine : String) :
    Diagnostic where
  file := file
  code := issue.code
  severity := issue.severity
  category := issue.code.category
  message := issue.message
  span := span
  sourceLine := sourceLine
  suggestion := issue.suggestion

/-- The diagnostic for an issue at `span` of a source, with the line that the
span starts on. -/
def Source.diagnose (source : Source) (issue : Issue) (span : Span) : Diagnostic :=
  issue.locate source.name span ((source.line? span.first.line).getD "")

end UnitScript
