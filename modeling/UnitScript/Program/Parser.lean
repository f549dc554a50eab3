import UnitScript.Expr.Parser
import UnitScript.Program.Basic

/-!
# Reading programs

```text
program   = { statement }
statement = block | identifier "=" expression | expression
block     = "{" { statement } "}"
```

A statement ends at a newline, a closing brace or the end of the file.  A
statement that cannot be read is complained about once and skipped, so one
pass finds several problems; when as many errors were found as are kept,
reading stops.

* `Reading` is the stream and the complaints so far.
* `Reading.statements` reads statements until their end.
* `Program.parse` reads a whole token list.
-/

namespace UnitScript

/-- Reads an assignment or a displayed expression. -/
def Parse.simpleStatement (fuel levels : Nat) : Parse Stmt := fun s =>
  match s.kind, s.secondKind with
  | .identifier name, .assign =>
      (do
        let target ← Parse.advance
        let _ ← Parse.advance
        let value ← Parse.expression fuel levels
        return Stmt.assign ⟨name, target⟩ value (target.join value.span)) s
  | _, _ =>
      (do
        let value ← Parse.expression fuel levels
        if (← Parse.peek) = Token.Kind.assign then Parse.fail .notAssignable
        else return Stmt.display value) s

/-- A stream that is being read, and what was wrong with it so far. -/
structure Reading where
  stream : TokenStream
  log : Diagnostics

namespace Reading

/-- Moves on in the stream. -/
def move (reading : Reading) (step : TokenStream → TokenStream) : Reading :=
  { reading with stream := step reading.stream }

/-- Records a problem. -/
def complain (reading : Reading) (source : Source) (problem : Problem) (span : Span) : Reading :=
  { reading with log := reading.log.complain source ⟨problem, span⟩ }

/-- Reads an `α`, or records why it cannot be read. -/
def attempt {α : Type} (reading : Reading) (source : Source) (parse : Parse α) :
    Option α × Reading :=
  match parse reading.stream with
  | .ok value stream => (some value, ⟨stream, reading.log⟩)
  | .error complaint stream => (none, ⟨stream, reading.log.complain source complaint⟩)

/-- Reads a block; the next token is its opening brace.  `body` reads the
statements up to the closing brace with the levels that are left. -/
def block (source : Source) (body : (levels : Nat) → Reading → List Stmt × Reading)
    (levels : Nat) (reading : Reading) : Option Stmt × Reading :=
  let opening := reading.stream.span
  let reading := reading.move .advance
  match levels with
  | 0 => (none, reading.complain source .deepBlock opening)
  | levels + 1 =>
      let (statements, reading) := body levels reading
      if reading.stream.kind = .rightBrace then
        let reading := reading.move .advance
        (some (.block statements (opening.join reading.stream.previous)), reading)
      else
        (none, reading.complain source .unclosedBlock opening)

/-- Reads a statement; `body` reads the statements of a block. -/
def statement (source : Source) (fuel : Nat)
    (body : (levels : Nat) → Reading → List Stmt × Reading) (levels : Nat) (reading : Reading) :
    Option Stmt × Reading :=
  if reading.stream.kind = .leftBrace then reading.block source body levels
  else reading.attempt source (Parse.simpleStatement fuel levels)

/-- Reads the end of a statement.  Anything else on its line is complained
about and skipped. -/
def endStatement (source : Source) (reading : Reading) : Reading :=
  match reading.stream.kind with
  | .newline => reading.move .skipNewlines
  | .endOfFile => reading
  | .rightBrace => reading
  | found =>
      (reading.complain source (.expectedStatementEnd found) reading.stream.span).move .synchronize

/-- Reads statements up to the end of the file or, inside a block, up to a
closing brace.  `fuel` bounds the number of tokens left, and one more for the
end. -/
def statements (source : Source) :
    (fuel : Nat) → (inBlock : Bool) → (levels : Nat) → Reading → List Stmt × Reading
  | 0, _, _, reading => ([], reading)
  | fuel + 1, inBlock, levels, reading =>
      let reading := reading.move .skipNewlines
      if reading.stream.atEnd || (inBlock && reading.stream.kind == .rightBrace)
          || reading.log.atErrorLimit then
        ([], reading)
      else if reading.stream.kind = .rightBrace then
        statements source fuel inBlock levels
          ((reading.complain source .unmatchedBrace reading.stream.span).move .advance)
      else
        match reading.statement source (fuel + 1) (statements source fuel true) levels with
        | (some statement, reading) =>
            let (later, reading) :=
              statements source fuel inBlock levels (reading.endStatement source)
            (statement :: later, reading)
        | (none, reading) =>
            statements source fuel inBlock levels (reading.move .synchronize)

end Reading

/-- A program, if anything of it could be read, and what was wrong. -/
structure Parsed where
  program : Option Program
  log : Diagnostics

/-- Reads a whole token list.  There is no program when there were errors and
no statement could be read. -/
def Program.parse (source : Source) (tokens : List Token) : Parsed :=
  let stream := (TokenStream.ofTokens tokens).skipNewlines
  let (statements, reading) :=
    Reading.statements source (stream.rest.length + 1) false maxNesting ⟨stream, ∅⟩
  let span := stream.span.join reading.stream.previous
  { program :=
      if statements.isEmpty && reading.log.hasErrors then none else some ⟨statements, span⟩
    log := reading.log }

end UnitScript
