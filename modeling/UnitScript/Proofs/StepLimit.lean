import Mathlib.Data.List.Infix
import UnitScript.Proofs.Outcome
import UnitScript.Proofs.Session.Truncation

/-!
# The step limit only truncates

Nothing of a script depends on the step limit but where its run ends.  If the
run does not end at the limit, a longer limit changes nothing at all.  If it
does, it is the run of the first statements alone with the fault added, and a
longer run begins with what it displayed and warned about.

* `Source.run_eq` says that the stages before execution do not read the limits.
* `message_ne_stepLimit` lets the fault of an outcome be read off its text.
* `outcome_within` and `outcome_exhausted` are the two ways a run can end.
* `step_limit_truncates` is the whole statement.
-/

namespace UnitScript

/-! ## The text of the fault -/

/-- A text begins as its first part does. -/
theorem head?_toList_append {front : String} {c : Char} (h : front.toList.head? = some c)
    (back : String) : (front ++ back).toList.head? = some c := by
  rw [String.toList_append, List.head?_append, h]
  rfl

namespace Fault

theorem head?_message_stepLimit (limit : Nat) :
    (Fault.stepLimit limit).message.toList.head? = some 's' :=
  head?_toList_append (head?_toList_append (by decide) _) _

/-- The texts of the other faults begin with another letter. -/
theorem head?_message {fault : Fault} (h : ∀ limit, fault ≠ .stepLimit limit) :
    ∃ c, c ≠ 's' ∧ fault.message.toList.head? = some c := by
  cases fault with
  | heap error =>
    cases error with
    | invalidPointer p => exact ⟨'i', by decide, head?_toList_append (by decide) _⟩
    | underflow p held requested =>
      exact ⟨'r', by decide, head?_toList_append (head?_toList_append (head?_toList_append
        (head?_toList_append (head?_toList_append (by decide) _) _) _) _) _⟩
    | noReferences => exact ⟨'r', by decide, by decide⟩
    | overflow p => exact ⟨'r', by decide, head?_toList_append (by decide) _⟩
  | scope error => exact ⟨'n', by decide, by cases error; decide⟩
  | value error =>
    exact ⟨'t', by decide, head?_toList_append (head?_toList_append (head?_toList_append
      (by decide) _) _) _⟩
  | undefinedVariable name =>
    exact ⟨'u', by decide, head?_toList_append (head?_toList_append (by decide) _) _⟩
  | stepLimit limit => exact absurd rfl (h limit)

/-- No other fault is worded like that of the limit. -/
theorem message_ne_stepLimit {fault : Fault} (h : ∀ limit, fault ≠ .stepLimit limit)
    (limit : Nat) : fault.message ≠ (Fault.stepLimit limit).message := by
  intro heq
  obtain ⟨c, hc, hfirst⟩ := head?_message h
  rw [heq, head?_message_stepLimit] at hfirst
  exact hc (Option.some.inj hfirst).symm

end Fault

/-! ## Warnings of a log that grows -/

namespace Diagnostics

/-- The warnings of a log that was gone on from stand first. -/
theorem Extends.warnings_append {source : Source} {before first later : Diagnostics}
    (hbefore : Extends source ∅ before) (hfirst : Extends source ∅ first)
    (h : Extends source first later) :
    (before ++ first).warnings <+: (before ++ later).warnings ∧
      (before ++ first).totalWarnings ≤ (before ++ later).totalWarnings := by
  obtain ⟨found, rfl⟩ := hbefore
  obtain ⟨complaints, rfl⟩ := hfirst
  obtain ⟨more, rfl⟩ := h
  rw [← complainAll_append, complainAll_empty, complainAll_empty, complainAll_empty,
    ofList_append, ofList_append, List.map_append, ← List.append_assoc, ofList_eq, ofList_eq]
  simp only [List.filter_append, List.length_append]
  exact ⟨(List.prefix_append _ _).take _, by omega⟩

theorem warnings_push_error {d : Diagnostic} (h : d.isError = true) (log : Diagnostics) :
    (log.push d).warnings = log.warnings ∧ (log.push d).totalWarnings = log.totalWarnings := by
  rw [push_of_error h]
  exact ⟨rfl, rfl⟩

end Diagnostics

/-! ## Outcomes of executions -/

namespace Session

/-- A run up to the first fault ends like the execution. -/
theorem runAll_of_execAll_ok {statements : List Stmt} {session reached : Session Heap Pointer}
    (h : execAll statements session = .ok () reached) :
    runAll statements session = (none, reached) := by
  induction statements generalizing session with
  | nil =>
    rw [execAll] at h
    cases h
    rfl
  | cons statement later ih =>
    rw [execAll, bind_eq] at h
    rw [runAll]
    cases hresult : exec statement session with
    | ok _ session' =>
      rw [hresult] at h
      exact ih h
    | error fault session' =>
      rw [hresult] at h
      cases h

/-- A run up to the first fault names the statement that the execution stopped
in. -/
theorem runAll_of_execAll_error {statements : List Stmt} {session stopped : Session Heap Pointer}
    {fault : Fault} (h : execAll statements session = .error fault stopped) :
    ∃ statement ∈ statements, runAll statements session = (some (statement, fault), stopped) := by
  induction statements generalizing session with
  | nil =>
    rw [execAll] at h
    cases h
  | cons statement later ih =>
    rw [execAll, bind_eq] at h
    rw [runAll]
    cases hresult : exec statement session with
    | ok _ session' =>
      rw [hresult] at h
      obtain ⟨stopping, hmem, heq⟩ := ih h
      exact ⟨stopping, List.mem_cons_of_mem _ hmem, heq⟩
    | error fault' session' =>
      rw [hresult] at h
      cases h
      exact ⟨statement, List.mem_cons_self, rfl⟩

/-- A run that does not stop at the limit is the same under a longer one, up to
the statement that it stops in. -/
theorem runAll_within {statements : List Stmt} {session : Session Heap Pointer} {longer : Nat}
    (hle : session.limits.steps ≤ longer) (hdone : ¬Exhausted (execAll statements session)) :
    runAll statements (session.within longer) =
      ((runAll statements session).1, (runAll statements session).2.within longer) := by
  induction statements generalizing session with
  | nil => rfl
  | cons statement later ih =>
    have hlimit := limit_stepRelation.exec statement session
    rw [execAll, bind_eq] at hdone
    have hfirst : ¬Exhausted (exec statement session) := by
      cases hresult : exec statement session with
      | ok _ session' => exact nofun
      | error fault session' =>
        rw [hresult] at hdone
        exact hdone
    rw [runAll, runAll, exec_within statement hle hfirst]
    cases hresult : exec statement session with
    | ok _ session' =>
      rw [hresult] at hdone hlimit
      exact ih (Nat.le_trans (Nat.le_of_eq hlimit) hle) hdone
    | error fault session' => rfl

/-- The outcome of a run that does not stop at the limit is the same under a
longer one. -/
theorem outcome_within {statements : List Stmt} {session : Session Heap Pointer} {longer : Nat}
    (before : Diagnostics) (hle : session.limits.steps ≤ longer)
    (hdone : ¬Exhausted (execAll statements session)) :
    outcome statements before (session.within longer) = outcome statements before session := by
  unfold outcome
  rw [runAll_within hle hdone]
  rfl

/-- The outcome of an execution that reached its end. -/
theorem outcome_of_ok {statements : List Stmt} {session reached : Session Heap Pointer}
    (before : Diagnostics) (h : execAll statements session = .ok () reached) :
    outcome statements before session =
      ⟨reached.source.name, true, reached.output.toList, before ++ reached.store.log,
        reached.snapshot, none, reached.steps⟩ := by
  unfold outcome
  rw [runAll_of_execAll_ok h]
  rfl

/-- The outcome of an execution that stopped. -/
theorem outcome_of_error {statements : List Stmt} {session stopped : Session Heap Pointer}
    {fault : Fault} (before : Diagnostics) (h : execAll statements session = .error fault stopped) :
    ∃ statement ∈ statements,
      outcome statements before session =
        ⟨stopped.source.name, true, stopped.output.toList,
          (before ++ stopped.store.log).report stopped.source (faultIssue fault) statement.span,
          stopped.snapshot, some fault.message, stopped.steps⟩ := by
  obtain ⟨statement, hmem, heq⟩ := runAll_of_execAll_error h
  refine ⟨statement, hmem, ?_⟩
  unfold outcome
  rw [heq]
  rfl

/-- The outcome of an execution has what it displayed and warned about. -/
theorem outcome_shows (statements : List Stmt) (before : Diagnostics)
    (session : Session Heap Pointer) :
    (outcome statements before session).output =
        (final (execAll statements session)).output.toList ∧
      (outcome statements before session).diagnostics.warnings =
        (before ++ (final (execAll statements session)).store.log).warnings ∧
      (outcome statements before session).diagnostics.totalWarnings =
        (before ++ (final (execAll statements session)).store.log).totalWarnings := by
  cases hresult : execAll statements session with
  | ok _ reached =>
    rw [outcome_of_ok before hresult]
    exact ⟨rfl, rfl, rfl⟩
  | error fault stopped =>
    obtain ⟨statement, _, heq⟩ := outcome_of_error before hresult
    have hreported := Diagnostics.warnings_push_error
      (d := stopped.source.diagnose (faultIssue fault) statement.span) rfl
      (before ++ stopped.store.log)
    rw [heq]
    exact ⟨rfl, hreported⟩

/-- Where the first statements lead is on the way of every longer run. -/
theorem begun_precedes {statements : List Stmt} {session reached : Session Heap Pointer}
    {count longer : Nat} (hle : session.limits.steps ≤ longer)
    (hbegun : execAll (Stmt.first count statements) session = .ok () reached) :
    session.Precedes reached ∧
      reached.Precedes (final (execAll statements (session.within longer))) := by
  have hstarted := precedes_stepRelation.execAll (Stmt.first count statements) session
  rw [hbegun] at hstarted
  have hsame : execAll (Stmt.first count statements) (session.within longer) =
      .ok () (reached.within longer) := by
    rw [execAll_within _ hle (by rw [hbegun]; exact nofun), hbegun]
    rfl
  have hlonger := precedes_first statements count hsame
  exact ⟨hstarted, hlonger.source, hlonger.output, hlonger.log⟩

/-- The outcome of a run that stops where the first statements lead is where
that of a longer run begins. -/
theorem outcome_prefix {statements : List Stmt} {session reached : Session Heap Pointer}
    {count longer : Nat} {before : Diagnostics}
    (hbefore : Diagnostics.Extends session.source ∅ before)
    (hfresh : session.store.log = ∅) (hle : session.limits.steps ≤ longer)
    (hbegun : execAll (Stmt.first count statements) session = .ok () reached)
    (h : execAll statements session = .error (.stepLimit count) reached.ticked) :
    let stopped := outcome statements before session
    let extended := outcome statements before (session.within longer)
    stopped.output <+: extended.output ∧
      stopped.diagnostics.warnings <+: extended.diagnostics.warnings ∧
      stopped.diagnostics.totalWarnings ≤ extended.diagnostics.totalWarnings := by
  obtain ⟨hstarted, hlonger⟩ := begun_precedes hle hbegun
  have hlogged : Diagnostics.Extends session.source ∅ reached.store.log := by
    rw [← hfresh]
    exact hstarted.log
  have hgrown := hlonger.log
  rw [hstarted.source] at hgrown
  obtain ⟨houtput, hwarnings, htotal⟩ := outcome_shows statements before session
  obtain ⟨houtput', hwarnings', htotal'⟩ := outcome_shows statements before (session.within longer)
  rw [h] at houtput hwarnings htotal
  dsimp only
  rw [houtput, houtput', hwarnings, hwarnings', htotal, htotal']
  exact ⟨hlonger.output, hbefore.warnings_append hlogged hgrown⟩

/-- A fresh run that stops at the limit is that of the first statements alone,
with one more counted and the fault reported at the statement it arose in. -/
theorem outcome_exhausted {statements : List Stmt} {session reached : Session Heap Pointer}
    {count : Nat} (before : Diagnostics)
    (hbegun : execAll (Stmt.first count statements) session = .ok () reached)
    (hsteps : reached.steps = count)
    (h : execAll statements session = .error (.stepLimit count) reached.ticked)
    (hsource : reached.source = session.source) :
    let begun := outcome (Stmt.first count statements) before session
    begun.fault = none ∧ begun.steps = count ∧
      ∃ statement ∈ statements,
        outcome statements before session =
          { begun with
            steps := count + 1
            fault := some (Fault.stepLimit count).message
            diagnostics :=
              begun.diagnostics.report session.source (faultIssue (.stepLimit count))
                statement.span } := by
  obtain ⟨statement, hmem, heq⟩ := outcome_of_error before h
  rw [outcome_of_ok before hbegun, heq]
  refine ⟨rfl, hsteps, statement, hmem, ?_⟩
  simp only [← hsource, ← hsteps]
  rfl

end Session

/-! ## From the text to the outcome -/

namespace Source

/-- What the stages before execution find in a script of which a program could
be read. -/
def found (source : Source) (program : Program) : Diagnostics :=
  ∅ ++ source.lex.log ++ (Program.parse source source.lex.tokens).log ++
    program.check Registry.standard source

/-- The limits are not read before execution: a script is executed under all of
them or under none. -/
theorem run_eq (source : Source) :
    (∃ log, ∀ limits, source.run limits = .notExecuted source.name log) ∨
      ∃ program, (Program.parse source source.lex.tokens).program = some program ∧
        Diagnostics.Extends source ∅ (source.found program) ∧
        ∀ limits, source.run limits = Session.outcome program.statements (source.found program)
          (Session.start source limits Registry.standard Heap.empty) := by
  have hread := source.extends_read.1
  cases hprogram : (Program.parse source source.lex.tokens).program with
  | none =>
    refine .inl ⟨∅ ++ source.lex.log ++ (Program.parse source source.lex.tokens).log, ?_⟩
    intro limits
    unfold run
    dsimp only
    rw [hprogram]
  | some program =>
    have hrun (limits : Limits) : source.run limits =
        if (source.found program).hasErrors = true then
          .notExecuted source.name (source.found program)
        else
          Session.outcome program.statements (source.found program)
            (Session.start source limits Registry.standard Heap.empty) := by
      unfold run
      dsimp only
      rw [hprogram]
      rfl
    by_cases herrors : (source.found program).hasErrors = true
    · exact .inl ⟨source.found program, fun limits => (hrun limits).trans (if_pos herrors)⟩
    · refine .inr ⟨program, rfl, ?_, fun limits => (hrun limits).trans (if_neg herrors)⟩
      exact hread.append (Program.extends_check Registry.standard source program)

/-- The step limit only truncates a run.  At most one statement more than the
limit is counted.  A run that does not end at the limit is the same under a
longer one.  One that does has counted exactly one statement more than the
limit, and a longer run begins with what it displayed and warned about; but for
that count and the fault, it is the run of the first statements of the program
alone, those inside blocks counted, as many as the limit allows. -/
theorem step_limit_truncates (source : Source) {limit longer : Nat} (lines : Nat)
    (hle : limit ≤ longer) :
    let outcome := source.run ⟨limit, lines⟩
    let extended := source.run ⟨longer, lines⟩
    let exhausted := some (Fault.stepLimit limit).message
    outcome.steps ≤ limit + 1 ∧
    (outcome.fault ≠ exhausted → extended = outcome) ∧
    (outcome.fault = exhausted →
      outcome.steps = limit + 1 ∧
      outcome.output <+: extended.output ∧
      outcome.diagnostics.warnings <+: extended.diagnostics.warnings ∧
      outcome.diagnostics.totalWarnings ≤ extended.diagnostics.totalWarnings ∧
      ∃ program, (Program.parse source source.lex.tokens).program = some program ∧
        let begun := Session.outcome (Stmt.first limit program.statements) (source.found program)
          (Session.start source ⟨limit, lines⟩ Registry.standard Heap.empty)
        begun.fault = none ∧ begun.steps = limit ∧
          ∃ statement ∈ program.statements,
            outcome =
              { begun with
                steps := limit + 1
                fault := exhausted
                diagnostics :=
                  begun.diagnostics.report source (Session.faultIssue (.stepLimit limit))
                    statement.span }) := by
  rcases source.run_eq with ⟨log, hrun⟩ | ⟨program, hprogram, hfound, hrun⟩
  · rw [hrun, hrun]
    exact ⟨Nat.zero_le _, fun _ => rfl, nofun⟩
  rw [hrun, hrun]
  let session : Session Heap Pointer :=
    Session.start source ⟨limit, lines⟩ Registry.standard Heap.empty
  have hsound : session.Sound := Session.sound_start _ _ _
  change (Session.outcome _ _ session).steps ≤ _ ∧
    (_ → Session.outcome _ _ (session.within longer) = Session.outcome _ _ session) ∧ _
  have hpaced := Session.paced_execAll program.statements hsound
    (show session.steps + limit = session.limits.steps from Nat.zero_add limit)
  generalize hresult : Session.execAll program.statements session = result at hpaced
  cases hpaced with
  | @done reached hsteps hroom =>
    have hdone : ¬Session.Exhausted (Session.execAll program.statements session) := by
      rw [hresult]
      exact nofun
    have hsame := Session.outcome_within (source.found program) hle hdone
    refine ⟨?_, fun _ => hsame, ?_⟩
    · rw [Session.outcome_of_ok _ hresult]
      exact Nat.le_succ_of_le hroom
    · rw [Session.outcome_of_ok _ hresult]
      exact nofun
  | @faulted fault stopped hfault hroom =>
    have hdone : ¬Session.Exhausted (Session.execAll program.statements session) := by
      rw [hresult]
      rintro ⟨other, heq⟩
      exact hfault other (Option.some.inj heq)
    have hsame := Session.outcome_within (source.found program) hle hdone
    obtain ⟨statement, _, heq⟩ := Session.outcome_of_error (source.found program) hresult
    refine ⟨?_, fun _ => hsame, ?_⟩
    · rw [heq]
      exact Nat.le_succ_of_le hroom
    · rw [heq]
      intro hmessage
      exact absurd (Option.some.inj hmessage) (Fault.message_ne_stepLimit hfault limit)
  | @exhausted reached hbegun hsteps =>
    have hsource := (Session.begun_precedes hle hbegun).1.source
    obtain ⟨houtput, hwarnings, htotal⟩ := Session.outcome_prefix hfound rfl hle hbegun hresult
    obtain ⟨hfault, hcounted, statement, hmem, heq⟩ :=
      Session.outcome_exhausted (source.found program) hbegun hsteps hresult hsource
    have hcount : (Session.outcome program.statements (source.found program) session).steps =
        limit + 1 := by
      rw [heq]
    have hstop : (Session.outcome program.statements (source.found program) session).fault =
        some (Fault.stepLimit limit).message := by
      rw [heq]
    exact ⟨Nat.le_of_eq hcount, fun hne => absurd hstop hne, fun _ => ⟨hcount, houtput, hwarnings,
      htotal, program, hprogram, hfault, hcounted, statement, hmem, heq⟩⟩

/-- The limit is reached in a block: the statement that displays is executed, the
assignment after it is not. -/
theorem step_limit_truncates_block :
    let source : Source := ⟨"s", "a = 1\n\x7b\na\nb = 2\na\n\x7d\n"⟩
    let outcome := source.run ⟨3, 10⟩
    3 ≤ 5 ∧ outcome.fault = some (Fault.stepLimit 3).message ∧ outcome.steps = 4 ∧
      outcome.output = ["1"] ∧ outcome.output <+: (source.run ⟨5, 10⟩).output ∧
      (source.run ⟨5, 10⟩).output = ["1", "1"] := by
  intro source outcome
  have hfault : outcome.fault = some (Fault.stepLimit 3).message := by decide +kernel
  obtain ⟨hsteps, houtput, _⟩ :=
    (step_limit_truncates source 10 (show 3 ≤ 5 by decide)).2.2 hfault
  exact ⟨by decide, hfault, hsteps, by decide +kernel, houtput, by decide +kernel⟩

end Source

end UnitScript
