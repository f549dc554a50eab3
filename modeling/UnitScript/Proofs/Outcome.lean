import UnitScript.Command.Basic
import UnitScript.Outcome.Basic
import UnitScript.Proofs.Grammar.Statements
import UnitScript.Proofs.Session.UnitErrors

/-!
# Outcomes are consistent

A script is rejected when one of the stages before execution finds an error,
and a script that is not rejected is executed.  Execution finds no error of its
own, since the check came before it, so the only error of a script that was
executed is the fault that stopped it.

* `extends_lex`, `extends_parse` and `extends_check` say that what a stage
  collects are complaints about the script; `extends_read` puts the first two
  together.
* `errors_outcome` says what execution adds: nothing, or the fault alone.
* `run_cases` says what the two ways through the stages lead to;
  `executed_run_eq_false`, `run_of_not_executed` and `errors_run` read it off.
* `outcome_consistent` is the whole statement, up to the exit code.
-/

namespace UnitScript

/-! ## What the stages before execution collect -/

/-- Scanning adds complaints and takes none back. -/
theorem Source.extends_lexFrom (source : Source) (fuel : Nat) (cursor : Cursor)
    (log : Diagnostics) : Diagnostics.Extends source log (source.lexFrom fuel cursor log).log := by
  induction fuel generalizing cursor log with
  | zero => exact .refl source log
  | succ fuel ih =>
    unfold lexFrom
    split
    · exact .refl source log
    · simp only
      split
      · exact .refl source log
      · next c _ _ =>
          generalize cursor.skipBlanks.scan c = scan
          have hscan : Diagnostics.Extends source log (log.complainAll source scan.complaints) :=
            ⟨scan.complaints, rfl⟩
          have hlater := ih scan.cursor (log.complainAll source scan.complaints)
          cases scan.kind <;> exact hscan.trans hlater

theorem Source.extends_lex (source : Source) : Diagnostics.Extends source ∅ source.lex.log :=
  source.extends_lexFrom _ _ ∅

namespace Program

theorem extends_parse (source : Source) (tokens : List Token) :
    Diagnostics.Extends source ∅ (parse source tokens).log := by
  let stream := (TokenStream.ofTokens tokens).skipNewlines
  exact Reading.extends_statements source (stream.rest.length + 1) false maxNesting ⟨stream, ∅⟩

theorem extends_check (registry : Registry) (source : Source) (program : Program) :
    Diagnostics.Extends source ∅ (program.check registry source) :=
  ⟨Stmt.allUnitComplaints registry program.statements, rfl⟩

/-- Tokens of which no program could be read have errors. -/
theorem hasErrors_of_parse_eq_none {source : Source} {tokens : List Token}
    (h : (parse source tokens).program = none) : (parse source tokens).log.hasErrors = true := by
  unfold parse at h ⊢
  simp only at h ⊢
  split at h
  · next hnone => exact (Bool.and_eq_true_iff.1 hnone).2
  · cases h

end Program

/-- What is known of a script once it was read: the errors of both stages count,
also those that were not kept. -/
theorem Source.extends_read (source : Source) :
    let parsed := Program.parse source source.lex.tokens
    let read : Diagnostics := ∅ ++ source.lex.log ++ parsed.log
    Diagnostics.Extends source ∅ read ∧
      read.totalErrors = source.lex.log.totalErrors + parsed.log.totalErrors := by
  intro parsed read
  have hempty := Diagnostics.Extends.refl source ∅
  have hlexed := source.extends_lex
  have hparsed : Diagnostics.Extends source ∅ parsed.log := Program.extends_parse source _
  refine ⟨(hempty.append hlexed).append hparsed, ?_⟩
  rw [(hempty.append hlexed).totalErrors_append hparsed, hempty.totalErrors_append hlexed,
    show (∅ : Diagnostics).totalErrors = 0 from rfl, Nat.zero_add]

namespace Diagnostics

theorem hasErrors_eq_false {log : Diagnostics} : log.hasErrors = false ↔ log.totalErrors = 0 := by
  unfold hasErrors
  rw [decide_eq_false_iff_not]
  omega

theorem hasErrors_eq_true {log : Diagnostics} : log.hasErrors = true ↔ 0 < log.totalErrors :=
  decide_eq_true_iff

/-- An error that is recorded in a log without errors is the only one. -/
theorem Extends.push_error {source : Source} {log : Diagnostics} (h : Extends source ∅ log)
    (hzero : log.totalErrors = 0) {d : Diagnostic} (hd : d.isError = true) :
    (log.push d).errors = [d] ∧ (log.push d).totalErrors = 1 := by
  rw [push_of_error hd]
  simp only [h.errors_eq_nil hzero, hzero]
  exact ⟨rfl, trivial⟩

end Diagnostics

/-! ## Execution -/

namespace Session

variable {π ρ : Type} [StringPool π ρ] [DecidableEq ρ] [ToString ρ]

/-- A run up to the first fault leaves the session that execution leaves. -/
theorem runAll_final (statements : List Stmt) (session : Session π ρ) :
    (runAll statements session).2 = final (execAll statements session) := by
  induction statements generalizing session with
  | nil =>
    unfold execAll
    rfl
  | cons statement later ih =>
    unfold execAll runAll
    rw [bind_eq]
    cases exec statement session with
    | ok value session' => exact ih session'
    | error fault session' => rfl

/-- A program in whose units nothing is wrong logs no error when it is executed
in a fresh session. -/
theorem totalErrors_runAll (source : Source) (limits : Limits) (registry : Registry) (pool : π)
    {statements : List Stmt}
    (hunits : errorCount (Stmt.allUnitComplaints registry statements) = 0) :
    let logged := (runAll statements (start source limits registry pool : Session π ρ)).2.store.log
    Diagnostics.Extends source ∅ logged ∧ logged.totalErrors = 0 := by
  intro logged
  obtain ⟨count, hle, _, hgains⟩ :=
    (reports_execAll statements (start source limits registry pool : Session π ρ)).gains
  rw [← runAll_final] at hgains
  have htotal : logged.totalErrors = 0 + count := hgains.totalErrors
  have hcount : count ≤ errorCount (Stmt.allUnitComplaints registry statements) := hle
  refine ⟨hgains.toExtends, ?_⟩
  omega

/-- The errors of a program that was executed after clean stages: none, or the
fault alone. -/
theorem errors_outcome (source : Source) (limits : Limits) (registry : Registry) (pool : π)
    {statements : List Stmt} {before : Diagnostics} (hbefore : Diagnostics.Extends source ∅ before)
    (hclean : before.totalErrors = 0)
    (hunits : errorCount (Stmt.allUnitComplaints registry statements) = 0) :
    let outcome := outcome statements before (start source limits registry pool : Session π ρ)
    (outcome.fault = none → outcome.diagnostics.errors = [] ∧ outcome.diagnostics.totalErrors = 0) ∧
    ∀ fault, outcome.fault = some fault →
      ∃ d, outcome.diagnostics.errors = [d] ∧ d.code = .runtimeFault ∧ d.message = fault ∧
        outcome.diagnostics.totalErrors = 1 := by
  obtain ⟨hlogged, hnone⟩ :=
    totalErrors_runAll (ρ := ρ) source limits registry pool hunits
  unfold Session.outcome
  generalize runAll statements (start source limits registry pool : Session π ρ) = ran
    at hlogged hnone
  obtain ⟨stopped, session⟩ := ran
  have hmerged := hbefore.append hlogged
  have hzero : (before ++ session.store.log).totalErrors = 0 := by
    rw [hbefore.totalErrors_append hlogged, hclean, hnone]
  cases stopped with
  | none => exact ⟨fun _ => ⟨hmerged.errors_eq_nil hzero, hzero⟩, nofun⟩
  | some stop =>
    obtain ⟨statement, fault⟩ := stop
    refine ⟨fun hnone => absurd hnone (Option.some_ne_none fault.message), ?_⟩
    intro text htext
    cases htext
    obtain ⟨herrors, htotal⟩ := hmerged.push_error hzero
      (d := session.source.diagnose (faultIssue fault) statement.span) rfl
    exact ⟨_, herrors, rfl, rfl, htotal⟩

end Session

/-! ## From the text to the exit code -/

namespace Source

/-- A stage before execution finds an error in the script.  Only a program that
could be read is checked. -/
def Rejected (source : Source) : Prop :=
  let lexed := source.lex
  let parsed := Program.parse source lexed.tokens
  lexed.log.hasErrors = true ∨ parsed.log.hasErrors = true ∨
    ∃ program, parsed.program = some program ∧
      (program.check Registry.standard source).hasErrors = true

/-- A rejected script is not executed and has errors; any other is executed
after stages that found none. -/
theorem run_cases (source : Source) (limits : Limits) :
    (source.Rejected ∧
      ∃ log : Diagnostics, 0 < log.totalErrors ∧
        source.run limits = .notExecuted source.name log) ∨
    (¬source.Rejected ∧
      ∃ (program : Program) (log : Diagnostics), Diagnostics.Extends source ∅ log ∧
        log.totalErrors = 0 ∧
        errorCount (Stmt.allUnitComplaints Registry.standard program.statements) = 0 ∧
        source.run limits = Session.outcome program.statements log
          (Session.start source limits Registry.standard Heap.empty)) := by
  obtain ⟨hread, htotal⟩ := source.extends_read
  unfold run Rejected
  simp only [Diagnostics.hasErrors_eq_true]
  generalize (∅ ++ source.lex.log ++ (Program.parse source source.lex.tokens).log) = read
    at hread htotal
  cases hprogram : (Program.parse source source.lex.tokens).program with
  | none =>
    have herrors := Diagnostics.hasErrors_eq_true.1 (Program.hasErrors_of_parse_eq_none hprogram)
    exact .inl ⟨.inr (.inl herrors), read, by omega, rfl⟩
  | some program =>
    have hchecked := Program.extends_check Registry.standard source program
    have hsum := hread.totalErrors_append hchecked
    have hmerged := hread.append hchecked
    simp only
    generalize read ++ program.check Registry.standard source = log at hsum hmerged
    -- the log has an error if and only if one of the three stages found one
    split
    · next herrors =>
        left
        refine ⟨?_, log, herrors, rfl⟩
        by_cases hlex : 0 < source.lex.log.totalErrors
        · exact .inl hlex
        · by_cases hparse : 0 < (Program.parse source source.lex.tokens).log.totalErrors
          · exact .inr (.inl hparse)
          · exact .inr (.inr ⟨program, rfl, by omega⟩)
    · next hclean =>
        right
        refine ⟨?_, program, log, hmerged, by omega, ?_, rfl⟩
        · rintro (hlex | hparse | ⟨_, hsame, hcheck⟩)
          · omega
          · omega
          · cases hsame
            omega
        · rw [← program.totalErrors_check Registry.standard source]
          omega

variable (source : Source) (limits : Limits)

/-- Exactly the rejected scripts are not executed. -/
theorem executed_run_eq_false : (source.run limits).executed = false ↔ source.Rejected := by
  rcases source.run_cases limits with ⟨hrejected, _, _, heq⟩ | ⟨haccepted, _, _, _, _, _, heq⟩
  · rw [heq]
    exact iff_of_true rfl hrejected
  · rw [heq]
    exact iff_of_false nofun haccepted

/-- A script that is not executed has errors and nothing else. -/
theorem run_of_not_executed (h : (source.run limits).executed = false) :
    ∃ log : Diagnostics, 0 < log.totalErrors ∧
      source.run limits = .notExecuted source.name log := by
  rcases source.run_cases limits with ⟨_, log, hpositive, heq⟩ | ⟨haccepted, _⟩
  · exact ⟨log, hpositive, heq⟩
  · exact absurd ((executed_run_eq_false source limits).1 h) haccepted

/-- A script that is executed has no error, or its fault alone. -/
theorem errors_run (h : (source.run limits).executed = true) :
    ((source.run limits).fault = none →
      (source.run limits).diagnostics.errors = [] ∧
        (source.run limits).diagnostics.totalErrors = 0) ∧
    ∀ fault, (source.run limits).fault = some fault →
      ∃ d, (source.run limits).diagnostics.errors = [d] ∧ d.code = .runtimeFault ∧
        d.message = fault ∧ (source.run limits).diagnostics.totalErrors = 1 := by
  rcases source.run_cases limits with ⟨_, _, _, heq⟩ | ⟨_, _, _, hlog, hzero, hunits, heq⟩
  · rw [heq] at h
    exact absurd h Bool.false_ne_true
  · rw [heq]
    exact Session.errors_outcome source limits Registry.standard Heap.empty hlog hzero hunits

end Source

/-- Success is execution without a fault, if errors are found only before
execution and by a fault. -/
theorem Outcome.succeeded_iff {o : Outcome}
    (hnot : o.executed = false → 0 < o.diagnostics.totalErrors)
    (hexecuted : o.executed = true → o.fault = none → o.diagnostics.totalErrors = 0) :
    o.succeeded = true ↔ o.executed = true ∧ o.fault = none := by
  unfold succeeded
  rw [Bool.and_eq_true_iff, Bool.not_eq_true', Option.isNone_iff_eq_none,
    Diagnostics.hasErrors_eq_false]
  constructor
  · rintro ⟨hzero, hfault⟩
    refine ⟨?_, hfault⟩
    cases h : o.executed with
    | true => rfl
    | false =>
      have hpositive := hnot h
      omega
  · rintro ⟨h, hfault⟩
    exact ⟨hexecuted h hfault, hfault⟩

/-- The exit code for a script that could be read. -/
theorem Command.code_run (command : String) {read : String → Except File.ReadError String}
    {arguments : List String} {name text : String} {json : Bool} {limits : Limits}
    (hparsed : Arguments.parse arguments = .ok ⟨name, json, limits⟩)
    (hread : read name = .ok text) :
    (run command read arguments).code = 0 ↔ (Source.run ⟨name, text⟩ limits).succeeded = true := by
  simp only [run, prepare, hparsed, finish, hread, report]
  by_cases hsucceeded : (Source.run ⟨name, text⟩ limits).succeeded = true
  · cases json <;> simp [hsucceeded]
  · cases json <;> simp [hsucceeded]

/-- The outcome of a script says the same everywhere.  Execution is left out
exactly when a stage before it found an error, and then nothing else is in the
outcome.  A script that was executed has no error, or the fault that stopped it
as its only one.  So it succeeded, and the exit code of the command is zero,
exactly when it was executed and no fault stopped it. -/
theorem Source.outcome_consistent (name text : String) (limits : Limits) :
    let source : Source := ⟨name, text⟩
    let outcome := source.run limits
    (outcome.executed = false ↔ source.Rejected) ∧
    (outcome.executed = false →
      0 < outcome.diagnostics.totalErrors ∧ outcome.output = [] ∧ outcome.globals = [] ∧
        outcome.fault = none ∧ outcome.steps = 0) ∧
    (outcome.executed = true → outcome.fault = none →
      outcome.diagnostics.errors = [] ∧ outcome.diagnostics.totalErrors = 0) ∧
    (∀ fault, outcome.executed = true → outcome.fault = some fault →
      ∃ d, outcome.diagnostics.errors = [d] ∧ d.code = .runtimeFault ∧ d.message = fault ∧
        outcome.diagnostics.totalErrors = 1) ∧
    (outcome.succeeded = true ↔ outcome.executed = true ∧ outcome.fault = none) ∧
    (∀ command read arguments json,
      Command.Arguments.parse arguments = .ok ⟨name, json, limits⟩ → read name = .ok text →
        ((Command.run command read arguments).code = 0 ↔
          outcome.executed = true ∧ outcome.fault = none)) := by
  intro source outcome
  -- from here on only what the stages say of the outcome counts, not how it is computed
  have hrun : Source.run ⟨name, text⟩ limits = outcome := rfl
  have hrejected := executed_run_eq_false ⟨name, text⟩ limits
  have hnot := run_of_not_executed ⟨name, text⟩ limits
  have herrors := errors_run ⟨name, text⟩ limits
  rw [hrun] at hrejected hnot herrors
  clear_value outcome
  have hempty (h : outcome.executed = false) :
      0 < outcome.diagnostics.totalErrors ∧ outcome.output = [] ∧ outcome.globals = [] ∧
        outcome.fault = none ∧ outcome.steps = 0 := by
    obtain ⟨log, hpositive, heq⟩ := hnot h
    rw [heq]
    exact ⟨hpositive, rfl, rfl, rfl, rfl⟩
  have hsucceeded : outcome.succeeded = true ↔ outcome.executed = true ∧ outcome.fault = none :=
    Outcome.succeeded_iff (fun h => (hempty h).1) fun h hfault => ((herrors h).1 hfault).2
  refine ⟨hrejected, hempty, fun h => (herrors h).1, fun fault h => (herrors h).2 fault,
    hsucceeded, ?_⟩
  intro command read arguments json hparsed hread
  have hcode := Command.code_run command hparsed hread
  rw [hrun] at hcode
  exact hcode.trans hsucceeded

end UnitScript
