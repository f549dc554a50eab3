import UnitScript.Diagnostic.Record
import UnitScript.Outcome.Basic

/-!
# Outcomes as JSON records

An outcome is written as one object.  The fault, and the unit of a variable,
are left out when there is none.

* `toJson` writes a record, `ofJson?` reads it back.
* `Limits.ofJson?` reads the limits of a run; those not given are the usual
  ones.
-/

namespace UnitScript

namespace Snapshot

/-- The keys of a variable, in the order they are written. -/
def keys : List String := ["name", "value", "unit"]

/-- A variable as a record. -/
def toJson (s : Snapshot) : Json :=
  .object ([("name", .string s.name), ("value", .string s.value)]
    ++ Json.optionalField "unit" s.unit)

/-- Reads a variable. -/
def ofJson? (json : Json) : Option Snapshot := do
  match ← json.fields? keys with
  | [some name, some value, unit] =>
      return ⟨← name.string?, ← value.string?, ← Json.optional? Json.string? unit⟩
  | _ => none

end Snapshot

namespace Outcome

/-- The keys of an outcome, in the order they are written. -/
def keys : List String :=
  ["file", "executed", "output", "diagnostics", "variables", "fault", "steps"]

/-- An outcome as a record. -/
def toJson (o : Outcome) : Json :=
  .object
    ([("file", .string o.file), ("executed", .bool o.executed),
        ("output", .array (o.output.map Json.string)), ("diagnostics", o.diagnostics.toJson),
        ("variables", .array (o.globals.map Snapshot.toJson))]
      ++ Json.optionalField "fault" o.fault ++ [("steps", .integer o.steps)])

/-- Reads an outcome. -/
def ofJson? (json : Json) : Option Outcome := do
  match ← json.fields? keys with
  | [some file, some executed, some output, some diagnostics, some globals, fault,
      some steps] =>
      return {
        file := ← file.string?
        executed := ← executed.bool?
        output := ← output.list? Json.string?
        diagnostics := ← Diagnostics.ofJson? diagnostics
        globals := ← globals.list? Snapshot.ofJson?
        fault := ← Json.optional? Json.string? fault
        steps := ← steps.nat? Json.countBound }
  | _ => none

end Outcome

namespace Limits

/-- A limit that is given, or the usual one. -/
def limit? (usual : Nat) : Option Json → Option Nat
  | none => some usual
  | some value => value.nat? Json.countBound

/-- The keys of limits, in the order of their fields. -/
def keys : List String := ["step_limit", "max_output_lines"]

/-- Reads limits. -/
def ofJson? (json : Json) : Option Limits := do
  let usual : Limits := {}
  match ← json.leadingFields? keys with
  | [steps, lines] => return ⟨← limit? usual.steps steps, ← limit? usual.lines lines⟩
  | _ => none

end Limits

end UnitScript
