import UnitScript.Command.Report
import UnitScript.Proofs.Outcome

/-!
# Logs of several stages

A log is built by recording diagnostics and by appending logs that were built
in the same way.  All of them keep the first diagnostics of a severity only, so
of those that an appended log did not keep nothing is left but a difference of
counts.

* `History` is how a log was built: `log` is the log, and `found` are all
  diagnostics that went into it.  `log_eq` says that the log is as if they had
  been recorded in one go.
* `Collected` logs have a history; `collected_run` says that the log of a run
  is one.
* `merging_is_recording` is the whole statement.
-/

namespace UnitScript

namespace Diagnostics

/-! ## Histories -/

/-- How a log was built. -/
inductive History where
  | empty
  | push (before : History) (d : Diagnostic)
  | append (before later : History)

namespace History

/-- The log that was built. -/
def log : History → Diagnostics
  | .empty => ∅
  | .push before d => before.log.push d
  | .append before later => before.log ++ later.log

/-- All diagnostics that went into the log, in their order. -/
def found : History → List Diagnostic
  | .empty => []
  | .push before d => before.found ++ [d]
  | .append before later => before.found ++ later.found

/-- It does not matter in how many stages a log was built. -/
theorem log_eq (history : History) : history.log = ofList history.found := by
  induction history with
  | empty => rfl
  | push before d ih =>
    rw [log, found, ih]
    unfold ofList
    rw [List.foldl_append]
    rfl
  | append before later ihBefore ihLater =>
    rw [log, found, ihBefore, ihLater, ofList_append]

end History

/-! ## Logs with a history -/

/-- The log was built by recording and appending. -/
def Collected (log : Diagnostics) : Prop := ∃ history : History, log = history.log

theorem Collected.push {log : Diagnostics} (h : Collected log) (d : Diagnostic) :
    Collected (log.push d) := by
  obtain ⟨history, rfl⟩ := h
  exact ⟨.push history d, rfl⟩

theorem Collected.append {log later : Diagnostics} (h : Collected log) (h' : Collected later) :
    Collected (log ++ later) := by
  obtain ⟨history, rfl⟩ := h
  obtain ⟨more, rfl⟩ := h'
  exact ⟨.append history more, rfl⟩

theorem collected_empty : Collected ∅ := ⟨.empty, rfl⟩

theorem Collected.foldl_push {log : Diagnostics} (h : Collected log) (found : List Diagnostic) :
    Collected (found.foldl Diagnostics.push log) := by
  induction found generalizing log with
  | nil => exact h
  | cons d later ih => exact ih (h.push d)

theorem Extends.collected {source : Source} {log : Diagnostics} (h : Extends source ∅ log) :
    Collected log := by
  obtain ⟨complaints, rfl⟩ := h
  rw [complainAll_eq_foldl]
  exact collected_empty.foldl_push _

/-! ## What a log says of its history -/

/-- The diagnostics of one severity. -/
def ofSeverity (severity : Severity) (found : List Diagnostic) : List Diagnostic :=
  found.filter (·.severity = severity)

theorem filter_not_isError (found : List Diagnostic) :
    found.filter (!·.isError) = ofSeverity .warning found := by
  refine List.filter_congr fun d _ => ?_
  unfold Diagnostic.isError
  cases d.severity <;> rfl

/-- The first diagnostics of each severity are kept and all are counted. -/
theorem History.log_eq_mk (history : History) :
    history.log =
      { errors := (ofSeverity .error history.found).take limit
        warnings := (ofSeverity .warning history.found).take limit
        totalErrors := (ofSeverity .error history.found).length
        totalWarnings := (ofSeverity .warning history.found).length } := by
  rw [history.log_eq, ofList_eq, filter_not_isError]
  rfl

/-- There are no more kept than counted. -/
theorem Collected.length_le {log : Diagnostics} (h : Collected log) :
    log.errors.length ≤ log.totalErrors ∧ log.warnings.length ≤ log.totalWarnings := by
  obtain ⟨history, rfl⟩ := h
  rw [history.log_eq_mk]
  exact ⟨List.length_take_le' .., List.length_take_le' ..⟩

end Diagnostics

/-! ## The log of a run -/

open Diagnostics (Collected)

theorem Session.collected_outcome {π ρ : Type} [StringPool π ρ] [DecidableEq ρ] [ToString ρ]
    (source : Source) (limits : Limits) (registry : Registry) (pool : π) (statements : List Stmt)
    {before : Diagnostics} (hbefore : Collected before) :
    let session : Session π ρ := start source limits registry pool
    Collected (outcome statements before session).diagnostics := by
  intro session
  have hlogged : Collected (runAll statements session).2.store.log := by
    obtain ⟨count, _, _, hgains⟩ := (reports_execAll statements session).gains
    rw [runAll_final]
    exact hgains.toExtends.collected
  unfold outcome
  generalize runAll statements session = ran at hlogged
  obtain ⟨_ | ⟨statement, fault⟩, session⟩ := ran
  · exact hbefore.append hlogged
  · exact (hbefore.append hlogged).push
      (session.source.diagnose (faultIssue fault) statement.span)

theorem Source.collected_run (source : Source) (limits : Limits) :
    Collected (source.run limits).diagnostics := by
  have hread := source.extends_read.1.collected
  unfold run
  simp only
  split
  · exact hread
  · next program _ =>
    have hchecked := (Program.extends_check Registry.standard source program).collected
    split
    · exact hread.append hchecked
    · exact Session.collected_outcome source limits Registry.standard Heap.empty
        program.statements (hread.append hchecked)

/-- Merging two logs gives the log that recording in one pass gives, whatever
was found and on whichever side the limit was reached.  A log that was built by
recording and appending in any order keeps the first errors and the first
warnings of all that went into it and counts all of them.  So it counts no less
than it keeps, and how many it did not keep is the difference; this holds of
every log that is appended and of the log that a run reports. -/
theorem Diagnostics.merging_is_recording :
    (∀ first later : List Diagnostic,
      first.foldl push ∅ ++ later.foldl push ∅ = later.foldl push (first.foldl push ∅)) ∧
    (∀ history : History,
      let log := history.log
      let errors := ofSeverity .error history.found
      let warnings := ofSeverity .warning history.found
      log.errors = errors.take limit ∧ log.warnings = warnings.take limit ∧
        log.totalErrors = errors.length ∧ log.totalWarnings = warnings.length ∧
        log.errors.length ≤ log.totalErrors ∧ log.warnings.length ≤ log.totalWarnings) ∧
    ∀ (source : Source) (limits : Limits),
      let log := (source.run limits).diagnostics
      Collected log ∧ log.errors.length + log.hiddenErrors = log.totalErrors := by
  refine ⟨?_, ?_, ?_⟩
  · intro first later
    rw [← List.foldl_append]
    exact ofList_append first later
  · intro history log errors warnings
    obtain ⟨herrors, hwarnings⟩ := Collected.length_le ⟨history, rfl⟩
    have hlog : log = ⟨errors.take limit, warnings.take limit, errors.length, warnings.length⟩ :=
      history.log_eq_mk
    refine ⟨?_, ?_, ?_, ?_, herrors, hwarnings⟩
    all_goals rw [hlog]
  · intro source limits log
    have hlog : Collected log := source.collected_run limits
    exact ⟨hlog, Nat.add_sub_cancel' hlog.length_le.1⟩

end UnitScript
