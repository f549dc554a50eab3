import UnitScript.Command.Arguments
import UnitScript.Command.Basic
import UnitScript.Command.Report
import UnitScript.Diagnostic.Basic
import UnitScript.Diagnostic.Log
import UnitScript.Diagnostic.Problem
import UnitScript.Diagnostic.Record
import UnitScript.Expr.Basic
import UnitScript.Expr.Parser
import UnitScript.File.Basic
import UnitScript.File.Tree
import UnitScript.Heap
import UnitScript.Json.Basic
import UnitScript.Json.Reader
import UnitScript.Json.Writer
import UnitScript.Main
import UnitScript.Number.Binary
import UnitScript.Number.Integer
import UnitScript.Number.Power
import UnitScript.Number.Shortest
import UnitScript.Number.Text
import UnitScript.Outcome.Basic
import UnitScript.Outcome.Record
import UnitScript.Program.Basic
import UnitScript.Program.Check
import UnitScript.Program.Parser
import UnitScript.Proofs.CommandLine
import UnitScript.Proofs.DiagnosticHistory
import UnitScript.Proofs.DiagnosticSpans
import UnitScript.Proofs.Diagnostics
import UnitScript.Proofs.Grammar.Braces
import UnitScript.Proofs.Grammar.Counter
import UnitScript.Proofs.Grammar.Depth
import UnitScript.Proofs.Grammar.LineByLine
import UnitScript.Proofs.Grammar.Nesting
import UnitScript.Proofs.Grammar.Origins
import UnitScript.Proofs.Grammar.Parallel
import UnitScript.Proofs.Grammar.Programs
import UnitScript.Proofs.Grammar.Progress
import UnitScript.Proofs.Grammar.Reading
import UnitScript.Proofs.Grammar.Reports
import UnitScript.Proofs.Grammar.Spans
import UnitScript.Proofs.Grammar.Statements
import UnitScript.Proofs.Grammar.Termination
import UnitScript.Proofs.Grammar.UnitText
import UnitScript.Proofs.Grammar.Units
import UnitScript.Proofs.Grammar.Values
import UnitScript.Proofs.Heap
import UnitScript.Proofs.Heap.Ledger
import UnitScript.Proofs.Json.Records
import UnitScript.Proofs.Json.RoundTrip
import UnitScript.Proofs.LineIndex
import UnitScript.Proofs.Lines
import UnitScript.Proofs.Number.Bounds
import UnitScript.Proofs.Number.Decoding
import UnitScript.Proofs.Number.Reading
import UnitScript.Proofs.Number.Rounding
import UnitScript.Proofs.Number.Signs
import UnitScript.Proofs.Occurrences
import UnitScript.Proofs.Outcome
import UnitScript.Proofs.Scopes
import UnitScript.Proofs.Session.Bindings
import UnitScript.Proofs.Session.Calls
import UnitScript.Proofs.Session.Capacity
import UnitScript.Proofs.Session.Changes
import UnitScript.Proofs.Session.Clock
import UnitScript.Proofs.Session.Commutation
import UnitScript.Proofs.Session.Display
import UnitScript.Proofs.Session.Downgrades
import UnitScript.Proofs.Session.Evaluation
import UnitScript.Proofs.Session.Frames
import UnitScript.Proofs.Session.Inline
import UnitScript.Proofs.Session.Integers
import UnitScript.Proofs.Session.Labels
import UnitScript.Proofs.Session.Magnitudes
import UnitScript.Proofs.Session.Numeric
import UnitScript.Proofs.Session.PlainQuantities
import UnitScript.Proofs.Session.References
import UnitScript.Proofs.Session.Renaming
import UnitScript.Proofs.Session.Repetition
import UnitScript.Proofs.Session.Rollback
import UnitScript.Proofs.Session.Similarity
import UnitScript.Proofs.Session.Slots
import UnitScript.Proofs.Session.Steps
import UnitScript.Proofs.Session.Transparency
import UnitScript.Proofs.Session.Truncation
import UnitScript.Proofs.Session.UnitErrors
import UnitScript.Proofs.Session.Warnings
import UnitScript.Proofs.Spans
import UnitScript.Proofs.StepLimit
import UnitScript.Proofs.Table
import UnitScript.Proofs.Token.ByteReader
import UnitScript.Proofs.Token.Bytes
import UnitScript.Proofs.Token.LineByLine
import UnitScript.Proofs.Token.Literals
import UnitScript.Proofs.Token.Order
import UnitScript.Proofs.Token.Positions
import UnitScript.Proofs.Token.RoundTrip
import UnitScript.Proofs.Token.Scanning
import UnitScript.Proofs.Token.Soundness
import UnitScript.Proofs.Token.Spelling
import UnitScript.Proofs.UnitDefects
import UnitScript.Proofs.UnitLabels
import UnitScript.Proofs.UnitRange
import UnitScript.Scope
import UnitScript.Session.Basic
import UnitScript.Session.Eval
import UnitScript.Session.Evaluated
import UnitScript.Session.Quantity
import UnitScript.Source
import UnitScript.Span
import UnitScript.StringPool
import UnitScript.Table
import UnitScript.Text.Slice
import UnitScript.Token.Basic
import UnitScript.Token.Lexer
import UnitScript.Token.Stream
import UnitScript.UnitExpr.Basic
import UnitScript.UnitExpr.Evaluation
import UnitScript.UnitExpr.Parser
import UnitScript.Units.Dimension
import UnitScript.Units.Measure
import UnitScript.Units.Registry
import UnitScript.Value.Arithmetic
import UnitScript.Value.Basic
