import UnitScript.Diagnostic.Log
import UnitScript.Json.Basic

/-!
# Diagnostics as JSON records

A diagnostic is written as one flat object: its span is spread over four
fields between the message and the source line, and the suggestion is left out
when there is none.

* `toJson` writes a record, `ofJson?` reads it back.
-/

namespace UnitScript

namespace Span

/-- The keys of a span, in the order they are written. -/
def keys : List String := ["line", "column", "end_line", "end_column"]

/-- The fields of a span. -/
def toFields (s : Span) : List (String × Json) :=
  [("line", .integer s.first.line), ("column", .integer s.first.column),
    ("end_line", .integer s.last.line), ("end_column", .integer s.last.column)]

/-- A span as a record. -/
def toJson (s : Span) : Json := .object s.toFields

/-- A line or a column, which takes 32 bits at most. -/
def coordinate? (json : Json) : Option Nat := json.nat? 4294967296

/-- Reads a span. -/
def ofJson? (json : Json) : Option Span := do
  match ← json.fields? keys with
  | [some line, some column, some endLine, some endColumn] =>
      return ⟨⟨← coordinate? line, ← coordinate? column⟩,
        ⟨← coordinate? endLine, ← coordinate? endColumn⟩⟩
  | _ => none

end Span

namespace Code

/-- Reads a code, which takes 16 bits at most. -/
def ofJson? (json : Json) : Option Code := do
  return ⟨UInt16.ofNat (← json.nat? 65536)⟩

end Code

namespace Diagnostic

/-- A diagnostic as a record. -/
def toJson (d : Diagnostic) : Json :=
  .object
    ([("file", .string d.file), ("code", .integer d.code.number.toNat),
        ("severity", .string d.severity.text), ("category", .string d.category.text),
        ("message", .string d.message)]
      ++ d.span.toFields ++ [("source_line", .string d.sourceLine)]
      ++ Json.optionalField "suggestion" d.suggestion)

/-- Reads a diagnostic. -/
def ofJson? : Json → Option Diagnostic
  | .object fields => do
      let json := Json.object fields
      return {
        file := ← (← json.field? "file").string?
        code := ← Code.ofJson? (← json.field? "code")
        severity := ← Severity.ofText? (← (← json.field? "severity").variant?)
        category := ← Category.ofText? (← (← json.field? "category").variant?)
        message := ← (← json.field? "message").string?
        span := ← Span.ofJson? json
        sourceLine := ← (← json.field? "source_line").string?
        suggestion := ← Json.optional? Json.string? (json.field? "suggestion") }
  | _ => none

end Diagnostic

namespace Diagnostics

/-- The keys of collected diagnostics, in the order they are written. -/
def keys : List String := ["errors", "warnings", "total_errors", "total_warnings"]

/-- Collected diagnostics as a record. -/
def toJson (log : Diagnostics) : Json :=
  .object
    [("errors", .array (log.errors.map Diagnostic.toJson)),
      ("warnings", .array (log.warnings.map Diagnostic.toJson)),
      ("total_errors", .integer log.totalErrors),
      ("total_warnings", .integer log.totalWarnings)]

/-- Reads collected diagnostics. -/
def ofJson? (json : Json) : Option Diagnostics := do
  match ← json.fields? keys with
  | [some errors, some warnings, some totalErrors, some totalWarnings] =>
      return ⟨← errors.list? Diagnostic.ofJson?, ← warnings.list? Diagnostic.ofJson?,
        ← totalErrors.nat? Json.countBound, ← totalWarnings.nat? Json.countBound⟩
  | _ => none

end Diagnostics

end UnitScript
