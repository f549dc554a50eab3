import UnitScript.Diagnostic.Basic

/-!
# Collected diagnostics

`Diagnostics` keeps the first diagnostics of each severity and counts all of
them.  Collecting can be split: what one stage collected is appended to what
earlier stages did.

* `push` records one diagnostic, `append` another collection.
* `atErrorLimit` tells a stage to give up.
-/

namespace UnitScript

/-- How many diagnostics of one severity are kept. -/
def Diagnostics.limit : Nat := 20

/-- Diagnostics in the order they were found: the first ones of each severity,
and how many there were. -/
structure Diagnostics where
  errors : List Diagnostic
  warnings : List Diagnostic
  totalErrors : Nat
  totalWarnings : Nat
deriving DecidableEq

namespace Diagnostics

/-- No diagnostics. -/
def empty : Diagnostics := ⟨[], [], 0, 0⟩

instance : EmptyCollection Diagnostics := ⟨empty⟩

instance : Inhabited Diagnostics := ⟨empty⟩

/-- Whether there was an error. -/
def hasErrors (log : Diagnostics) : Bool := decide (0 < log.totalErrors)

/-- Whether there was nothing at all. -/
def isEmpty (log : Diagnostics) : Bool := log.totalErrors == 0 && log.totalWarnings == 0

/-- Whether as many errors were found as are kept. -/
def atErrorLimit (log : Diagnostics) : Bool := decide (limit ≤ log.totalErrors)

/-- `kept` with one more diagnostic, unless it is full. -/
def keep (kept : List Diagnostic) (d : Diagnostic) : List Diagnostic :=
  if kept.length < limit then kept ++ [d] else kept

/-- Records a diagnostic under its severity. -/
def push (log : Diagnostics) (d : Diagnostic) : Diagnostics :=
  match d.severity with
  | .error =>
      { log with errors := keep log.errors d, totalErrors := log.totalErrors + 1 }
  | .warning =>
      { log with warnings := keep log.warnings d, totalWarnings := log.totalWarnings + 1 }

/-- Records what a later stage collected, and counts what that stage did not
keep. -/
def append (log later : Diagnostics) : Diagnostics :=
  let merged := (later.errors ++ later.warnings).foldl push log
  { merged with
    totalErrors := merged.totalErrors + (later.totalErrors - later.errors.length)
    totalWarnings := merged.totalWarnings + (later.totalWarnings - later.warnings.length) }

instance : Append Diagnostics := ⟨append⟩

/-- What was kept, errors first. -/
def kept (log : Diagnostics) : List Diagnostic := log.errors ++ log.warnings

/-- How many errors were counted and not kept. -/
def hiddenErrors (log : Diagnostics) : Nat := log.totalErrors - log.errors.length

/-- The first error. -/
def firstError? (log : Diagnostics) : Option Diagnostic := log.errors.head?

/-- Records an issue at a place of `source`. -/
def report (log : Diagnostics) (source : Source) (issue : Issue) (span : Span) : Diagnostics :=
  log.push (source.diagnose issue span)

end Diagnostics

end UnitScript
