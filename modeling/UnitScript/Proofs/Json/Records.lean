import UnitScript.Outcome.Record
import UnitScript.Proofs.Json.RoundTrip

/-!
# Records are read back

Diagnostics and outcomes are written as JSON and read back from it.  Nothing is
lost on the way: no two fields of a record have the same key, also where the
fields of a span are spread in a diagnostic, a field that is left out is read
as missing, and each value is one that the reader of its field accepts.

* `Fits` are the records whose numbers fit in the words they are kept in: 32
  bits for lines and columns, 64 bits for counts.
* `fields?_toJson` says which fields a record has, `ofJson?_of_fields` what a
  record is read from, and `ofJson?_toJson` puts both together.
* `plain_toJson` says that records are values of the kind that is read back
  from its text.
* `records_read_back` goes from records to texts and back.
-/

namespace UnitScript

namespace Json

/-! ## Single fields -/

theorem nat?_integer {n bound : Nat} (h : n < bound) : nat? bound (.integer n) = some n := by
  change (if 0 ≤ (n : Int) ∧ (n : Int) < bound then some (n : Int).toNat else none) = _
  rw [if_pos (by omega), Int.toNat_natCast]

theorem count?_integer {n : Nat} (h : n < UInt64.size) : nat? countBound (.integer n) = some n :=
  nat?_integer h

theorem optional?_map (value : Option String) :
    optional? string? (value.map Json.string) = some value := by
  cases value <;> rfl

/-- A list is read back if its elements are. -/
theorem list?_map {α : Type} {write : α → Json} {read : Json → Option α} {elements : List α}
    (h : ∀ x ∈ elements, read (write x) = some x) :
    list? read (.array (elements.map write)) = some elements := by
  change (elements.map write).mapM read = some elements
  induction elements with
  | nil => rfl
  | cons x later ih =>
    rw [List.map_cons, List.mapM_cons, h x List.mem_cons_self,
      ih fun y hy => h y (List.mem_cons_of_mem x hy)]
    rfl

theorem plain_optionalField (key : String) (value : Option String) :
    ∀ f ∈ optionalField key value, f.2.Plain := by
  cases value with
  | none => exact nofun
  | some s =>
    intro f hf
    rw [List.mem_singleton.1 hf]
    exact .string s

theorem plain_array_map {α : Type} {write : α → Json} {elements : List α}
    (h : ∀ x ∈ elements, (write x).Plain) : (Json.array (elements.map write)).Plain := by
  refine .array fun json hjson => ?_
  obtain ⟨x, hx, rfl⟩ := List.mem_map.1 hjson
  exact h x hx

end Json

/-! ## Diagnostics -/

/-- Lines and columns are kept in 32 bits. -/
structure Span.Fits (s : Span) : Prop where
  line : s.first.line < UInt32.size
  column : s.first.column < UInt32.size
  endLine : s.last.line < UInt32.size
  endColumn : s.last.column < UInt32.size

theorem Span.coordinate?_integer {n : Nat} (h : n < UInt32.size) :
    coordinate? (.integer n) = some n :=
  Json.nat?_integer h

theorem Code.ofJson?_number (code : Code) :
    ofJson? (.integer code.number.toNat) = some code := by
  unfold ofJson?
  rw [Json.nat?_integer code.number.toNat_lt]
  change some (Code.mk (UInt16.ofNat code.number.toNat)) = _
  rw [UInt16.ofNat_toNat]

theorem Severity.ofText?_text (severity : Severity) : ofText? severity.text = some severity := by
  cases severity <;> rfl

theorem Category.ofText?_text (category : Category) : ofText? category.text = some category := by
  cases category <;> rfl

/-- A span is read from its four fields. -/
theorem Span.ofJson?_of_fields {json line column endLine endColumn : Json} {s : Span}
    (h : json.fields? keys = some [some line, some column, some endLine, some endColumn])
    (hline : coordinate? line = some s.first.line)
    (hcolumn : coordinate? column = some s.first.column)
    (hendLine : coordinate? endLine = some s.last.line)
    (hendColumn : coordinate? endColumn = some s.last.column) : ofJson? json = some s := by
  -- The fields are variables: at numerals the check of `rfl` would count up to the bound.
  simp only [ofJson?, h, Option.bind_eq_bind, Option.bind_some, hline, hcolumn, hendLine,
    hendColumn]
  rfl

namespace Diagnostic

theorem field?_toJson (d : Diagnostic) :
    d.toJson.field? "file" = some (.string d.file) ∧
      d.toJson.field? "code" = some (.integer d.code.number.toNat) ∧
      d.toJson.field? "severity" = some (.string d.severity.text) ∧
      d.toJson.field? "category" = some (.string d.category.text) ∧
      d.toJson.field? "message" = some (.string d.message) ∧
      d.toJson.field? "source_line" = some (.string d.sourceLine) ∧
      d.toJson.field? "suggestion" = d.suggestion.map Json.string := by
  obtain ⟨_, _, _, _, _, _, _, suggestion⟩ := d
  cases suggestion <;> exact ⟨rfl, rfl, rfl, rfl, rfl, rfl, rfl⟩

/-- The fields of the span are found among those of the diagnostic. -/
theorem fields?_toJson (d : Diagnostic) :
    d.toJson.fields? Span.keys =
      some [some (.integer d.span.first.line), some (.integer d.span.first.column),
        some (.integer d.span.last.line), some (.integer d.span.last.column)] := by
  obtain ⟨_, _, _, _, _, _, _, suggestion⟩ := d
  cases suggestion <;> rfl

/-- A diagnostic is read from the fields of one object. -/
theorem ofJson?_of_fields {json : Json} {d : Diagnostic} (hobject : ∃ fields, json = .object fields)
    (hfile : (json.field? "file").bind Json.string? = some d.file)
    (hcode : (json.field? "code").bind Code.ofJson? = some d.code)
    (hseverity : ((json.field? "severity").bind Json.variant?).bind Severity.ofText? =
      some d.severity)
    (hcategory : ((json.field? "category").bind Json.variant?).bind Category.ofText? =
      some d.category)
    (hmessage : (json.field? "message").bind Json.string? = some d.message)
    (hspan : Span.ofJson? json = some d.span)
    (hline : (json.field? "source_line").bind Json.string? = some d.sourceLine)
    (hsuggestion : Json.optional? Json.string? (json.field? "suggestion") = some d.suggestion) :
    ofJson? json = some d := by
  obtain ⟨fields, rfl⟩ := hobject
  simp only [ofJson?, Option.bind_eq_bind, Option.bind_some, ← Option.bind_assoc, hfile, hcode,
    hseverity, hcategory, hmessage, hspan, hline, hsuggestion]
  rfl

theorem ofJson?_toJson {d : Diagnostic} (h : d.span.Fits) : ofJson? d.toJson = some d := by
  obtain ⟨hfile, hcode, hseverity, hcategory, hmessage, hline, hsuggestion⟩ := d.field?_toJson
  apply ofJson?_of_fields
  · exact ⟨_, rfl⟩
  · rw [hfile]
    rfl
  · rw [hcode, Option.bind_some]
    exact Code.ofJson?_number d.code
  · rw [hseverity]
    exact Severity.ofText?_text d.severity
  · rw [hcategory]
    exact Category.ofText?_text d.category
  · rw [hmessage]
    rfl
  · exact Span.ofJson?_of_fields d.fields?_toJson (Span.coordinate?_integer h.line)
      (Span.coordinate?_integer h.column) (Span.coordinate?_integer h.endLine)
      (Span.coordinate?_integer h.endColumn)
  · rw [hline]
    rfl
  · rw [hsuggestion]
    exact Json.optional?_map d.suggestion

theorem plain_toJson (d : Diagnostic) : d.toJson.Plain := by
  refine .object fun f hf => ?_
  simp only [List.mem_append, Span.toFields, List.mem_cons, List.not_mem_nil, or_false] at hf
  rcases hf with (((rfl | rfl | rfl | rfl | rfl) | rfl | rfl | rfl | rfl) | rfl) | hf
  all_goals first | exact .string _ | exact .integer _ | exact Json.plain_optionalField _ _ f hf

end Diagnostic

namespace Diagnostics

/-- The spans fit, and the totals are kept in 64 bits. -/
structure Fits (log : Diagnostics) : Prop where
  errors : ∀ d ∈ log.errors, d.span.Fits
  warnings : ∀ d ∈ log.warnings, d.span.Fits
  totalErrors : log.totalErrors < UInt64.size
  totalWarnings : log.totalWarnings < UInt64.size

theorem ofJson?_of_fields {json errors warnings totalErrors totalWarnings : Json}
    {log : Diagnostics}
    (h : json.fields? keys =
      some [some errors, some warnings, some totalErrors, some totalWarnings])
    (herrors : errors.list? Diagnostic.ofJson? = some log.errors)
    (hwarnings : warnings.list? Diagnostic.ofJson? = some log.warnings)
    (htotalErrors : totalErrors.nat? Json.countBound = some log.totalErrors)
    (htotalWarnings : totalWarnings.nat? Json.countBound = some log.totalWarnings) :
    ofJson? json = some log := by
  simp only [ofJson?, h, Option.bind_eq_bind, Option.bind_some, herrors, hwarnings, htotalErrors,
    htotalWarnings]
  rfl

theorem ofJson?_toJson {log : Diagnostics} (h : log.Fits) : ofJson? log.toJson = some log := by
  apply ofJson?_of_fields rfl
  · exact Json.list?_map fun d hd => Diagnostic.ofJson?_toJson (h.errors d hd)
  · exact Json.list?_map fun d hd => Diagnostic.ofJson?_toJson (h.warnings d hd)
  · exact Json.count?_integer h.totalErrors
  · exact Json.count?_integer h.totalWarnings

theorem plain_toJson (log : Diagnostics) : log.toJson.Plain := by
  refine .object fun f hf => ?_
  simp only [List.mem_cons, List.not_mem_nil, or_false] at hf
  rcases hf with rfl | rfl | rfl | rfl
  · exact Json.plain_array_map fun d _ => d.plain_toJson
  · exact Json.plain_array_map fun d _ => d.plain_toJson
  · exact .integer _
  · exact .integer _

end Diagnostics

/-! ## Outcomes -/

namespace Snapshot

theorem fields?_toJson (s : Snapshot) :
    s.toJson.fields? keys =
      some [some (.string s.name), some (.string s.value), s.unit.map Json.string] := by
  obtain ⟨_, _, unit⟩ := s
  cases unit <;> rfl

theorem ofJson?_toJson (s : Snapshot) : ofJson? s.toJson = some s := by
  simp only [ofJson?, s.fields?_toJson, Option.bind_eq_bind, Option.bind_some, Json.string?,
    Json.optional?_map]
  rfl

theorem plain_toJson (s : Snapshot) : s.toJson.Plain := by
  refine .object fun f hf => ?_
  simp only [List.mem_append, List.mem_cons, List.not_mem_nil, or_false] at hf
  rcases hf with (rfl | rfl) | hf
  · exact .string s.name
  · exact .string s.value
  · exact Json.plain_optionalField _ _ f hf

end Snapshot

namespace Outcome

/-- The diagnostics fit, and the steps are kept in 64 bits. -/
structure Fits (o : Outcome) : Prop where
  diagnostics : o.diagnostics.Fits
  steps : o.steps < UInt64.size

theorem fields?_toJson (o : Outcome) :
    o.toJson.fields? keys =
      some [some (.string o.file), some (.bool o.executed),
        some (.array (o.output.map Json.string)), some o.diagnostics.toJson,
        some (.array (o.globals.map Snapshot.toJson)), o.fault.map Json.string,
        some (.integer o.steps)] := by
  obtain ⟨_, _, _, _, _, fault, _⟩ := o
  cases fault <;> rfl

theorem ofJson?_of_fields {json file executed output diagnostics globals steps : Json}
    {fault : Option Json} {o : Outcome}
    (h : json.fields? keys = some [some file, some executed, some output, some diagnostics,
      some globals, fault, some steps])
    (hfile : file.string? = some o.file) (hexecuted : executed.bool? = some o.executed)
    (houtput : output.list? Json.string? = some o.output)
    (hdiagnostics : Diagnostics.ofJson? diagnostics = some o.diagnostics)
    (hglobals : globals.list? Snapshot.ofJson? = some o.globals)
    (hfault : Json.optional? Json.string? fault = some o.fault)
    (hsteps : steps.nat? Json.countBound = some o.steps) : ofJson? json = some o := by
  simp only [ofJson?, h, Option.bind_eq_bind, Option.bind_some, hfile, hexecuted, houtput,
    hdiagnostics, hglobals, hfault, hsteps]
  rfl

theorem ofJson?_toJson {o : Outcome} (h : o.Fits) : ofJson? o.toJson = some o := by
  apply ofJson?_of_fields o.fields?_toJson
  · rfl
  · rfl
  · exact Json.list?_map fun _ _ => rfl
  · exact Diagnostics.ofJson?_toJson h.diagnostics
  · exact Json.list?_map fun s _ => s.ofJson?_toJson
  · exact Json.optional?_map o.fault
  · exact Json.count?_integer h.steps

theorem plain_toJson (o : Outcome) : o.toJson.Plain := by
  refine .object fun f hf => ?_
  simp only [List.mem_append, List.mem_cons, List.not_mem_nil, or_false] at hf
  rcases hf with ((rfl | rfl | rfl | rfl | rfl) | hf) | rfl
  · exact .string o.file
  · exact .bool o.executed
  · exact Json.plain_array_map fun s _ => .string s
  · exact o.diagnostics.plain_toJson
  · exact Json.plain_array_map fun s _ => s.plain_toJson
  · exact Json.plain_optionalField _ _ f hf
  · exact .integer _

end Outcome

/-! ## Texts of records -/

namespace Json

/-- What the value is written as, in either layout, is read as `x`. -/
def ReadsAs {α : Type} (read : Json → Option α) (json : Json) (x : α) : Prop :=
  (parse? json.compact).bind read = some x ∧ (parse? json.pretty).bind read = some x

theorem readsAs_of_plain {α : Type} {read : Json → Option α} {json : Json} {x : α}
    (hplain : json.Plain) (hread : read json = some x) : ReadsAs read json x := by
  constructor
  · rw [compact, parse?_write Layout.spaced_compact hplain]
    exact hread
  · rw [pretty, parse?_write Layout.spaced_pretty hplain]
    exact hread

/-- Diagnostics, collected diagnostics and outcomes are read back from their
texts. -/
theorem records_read_back :
    (∀ d : Diagnostic, d.span.Fits → ReadsAs Diagnostic.ofJson? d.toJson d) ∧
      (∀ log : Diagnostics, log.Fits → ReadsAs Diagnostics.ofJson? log.toJson log) ∧
      ∀ o : Outcome, o.Fits → ReadsAs Outcome.ofJson? o.toJson o := by
  refine ⟨?_, ?_, ?_⟩
  · intro d h
    exact readsAs_of_plain d.plain_toJson (Diagnostic.ofJson?_toJson h)
  · intro log h
    exact readsAs_of_plain log.plain_toJson (Diagnostics.ofJson?_toJson h)
  · intro o h
    exact readsAs_of_plain o.plain_toJson (Outcome.ofJson?_toJson h)

/-- Quotes, backslashes, control characters and characters outside of ASCII,
with and without the fields that may be left out. -/
theorem records_read_back_escaped :
    let d : Diagnostic := ⟨"a\"b\\c", .runtimeFault, .warning, .runtime, "\x00\x08\x1f",
      ⟨⟨1, 1⟩, ⟨4294967295, 7⟩⟩, "\t\r\n", none⟩
    let o : Outcome := ⟨"é", true, ["", "\x7f😀"],
      ⟨[], [d, { d with suggestion := some "null" }], 0, 2⟩,
      [⟨"x", "\\u0041", none⟩, ⟨"y", "/", some "m"⟩], some "\x0c", 3⟩
    o.Fits ∧ ReadsAs Outcome.ofJson? o.toJson o := by
  intro d o
  have hspan : d.span.Fits := ⟨by decide, by decide, by decide, by decide⟩
  have hwarnings : ∀ w ∈ o.diagnostics.warnings, w.span.Fits := by
    intro w hw
    rcases List.mem_cons.1 hw with rfl | hw
    · exact hspan
    · rw [List.mem_singleton.1 hw]
      exact hspan
  have hfits : o.Fits := ⟨⟨nofun, hwarnings, by decide, by decide⟩, by decide⟩
  exact ⟨hfits, records_read_back.2.2 o hfits⟩

end Json

end UnitScript
