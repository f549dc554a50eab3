import UnitScript.Span
import UnitScript.Text.Slice

/-!
# Named texts and their lines

A `Source` is a text with the name it is reported under.  Its lines are found
through the byte offsets at which they start: the first line starts at zero,
and each newline starts another one.

* `lineStarts` is the list of those offsets, `lineCount` its length.
* `line?` is the text of a line without its newline and without carriage
  returns at its end.
* `underline` marks the part of a line that a span covers.
-/

namespace UnitScript

/-- A text and the name it is reported under. -/
structure Source where
  name : String
  text : String
deriving DecidableEq

namespace Source

/-- The offsets just behind each newline of `text`, which starts at `offset`. -/
def startsFrom (offset : Nat) : List Char → List Nat
  | [] => []
  | c :: rest =>
      let next := offset + c.utf8Size
      if c = '\n' then next :: startsFrom next rest else startsFrom next rest

/-- The byte offset of the first character of every line. -/
def lineStarts (source : Source) : List Nat :=
  0 :: startsFrom 0 source.text.toList

/-- The number of lines. -/
def lineCount (source : Source) : Nat :=
  source.lineStarts.length

/-- The byte offset at which the line with index `index` ends: just before the
next line's newline, or at the end of the text. -/
def lineStop (source : Source) (index : Nat) : Nat :=
  match source.lineStarts[index + 1]? with
  | some next => next - 1
  | none => Text.byteLength source.text.toList

/-- The text of line `number`, counted from one, without its newline and
without carriage returns at its end. -/
def line? (source : Source) (number : Nat) : Option String :=
  match number with
  | 0 => none
  | index + 1 => do
      let start ← source.lineStarts[index]?
      let piece ← Text.slice? source.text.toList start (source.lineStop index)
      return String.ofList (Text.trimEnd (· == '\r') piece)

/-- Carets under the columns that `span` covers on its first line.  A span
over several lines is marked up to the end of the first. -/
def underline (source : Source) (span : Span) : String :=
  let start := max span.first.column 1
  let stop :=
    if span.isSingleLine then max span.last.column start
    else max ((source.line? span.first.line).getD "").length start
  String.ofList (List.replicate (start - 1) ' ' ++ List.replicate (stop - start + 1) '^')

end Source

end UnitScript
