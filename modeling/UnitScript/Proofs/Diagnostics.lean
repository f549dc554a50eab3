import UnitScript.Diagnostic.Problem

/-!
# Logs as lists of diagnostics

A log keeps only the first diagnostics of each severity, and it is built by
several stages.  Both stop to matter once a log is read as the list of all
diagnostics that were ever recorded in it.

* `ofList` is the log of a list.  `errors_ofList` and `totalErrors_ofList` read
  it back, `ofList_append` says that what a later stage collected is as if it
  had been recorded in one go.
* `errorCount` counts the errors among complaints; `totalErrors_complainAll` is
  what they add to a log.
* `mem_kept_push`, `mem_kept_append` and `mem_kept_complainAll` say where a
  diagnostic of a log came from.
* `Extends` says that a log was made from another one by complaints, which is
  all that the stages of a run do; what they collect is put together by
  `Extends.append`, and the errors add up.  `Gains` says how many errors were
  among the complaints.
-/

namespace UnitScript

namespace Diagnostics

/-! ## Recording a list -/

/-- The log of the diagnostics `found`, recorded in this order. -/
def ofList (found : List Diagnostic) : Diagnostics := found.foldl push ∅

theorem push_of_error {d : Diagnostic} (h : d.isError = true) (log : Diagnostics) :
    log.push d = { log with errors := keep log.errors d, totalErrors := log.totalErrors + 1 } := by
  have hseverity : d.severity = .error := of_decide_eq_true h
  simp only [push, hseverity]

theorem push_of_warning {d : Diagnostic} (h : d.isError = false) (log : Diagnostics) :
    log.push d =
      { log with warnings := keep log.warnings d, totalWarnings := log.totalWarnings + 1 } := by
  have hseverity : d.severity = .warning := by
    cases hd : d.severity with
    | warning => rfl
    | error => exact absurd hd (of_decide_eq_false h)
  simp only [push, hseverity]

/-- Each severity is recorded on its own. -/
theorem foldl_push (found : List Diagnostic) (log : Diagnostics) :
    found.foldl push log =
      { errors := (found.filter (·.isError)).foldl keep log.errors
        warnings := (found.filter (!·.isError)).foldl keep log.warnings
        totalErrors := log.totalErrors + (found.filter (·.isError)).length
        totalWarnings := log.totalWarnings + (found.filter (!·.isError)).length } := by
  induction found generalizing log with
  | nil => rfl
  | cons d later ih =>
    rw [List.foldl_cons, ih]
    cases h : d.isError with
    | true =>
      simp only [push_of_error h, List.filter_cons, h, List.foldl_cons, List.length_cons,
        Bool.not_true, Bool.false_eq_true, if_true, if_false]
      simp only [mk.injEq, and_true, true_and]
      omega
    | false =>
      simp only [push_of_warning h, List.filter_cons, h, List.foldl_cons, List.length_cons,
        Bool.not_false, Bool.false_eq_true, if_true, if_false]
      simp only [mk.injEq, true_and]
      omega

/-- What is kept is filled up to the limit. -/
theorem foldl_keep (found kept : List Diagnostic) :
    found.foldl keep kept = kept ++ found.take (limit - kept.length) := by
  induction found generalizing kept with
  | nil => simp
  | cons d later ih =>
    rw [List.foldl_cons, ih, keep]
    split
    · next hroom =>
        have hleft : limit - kept.length = (limit - (kept ++ [d]).length) + 1 := by
          rw [List.length_append, List.length_singleton]
          omega
        rw [hleft, List.take_succ_cons, List.append_assoc, List.singleton_append]
    · next hfull =>
        have hnone : limit - kept.length = 0 := by omega
        rw [hnone, List.take_zero, List.take_zero]

/-- The log of a list keeps the first diagnostics of each severity and counts
all of them. -/
theorem ofList_eq (found : List Diagnostic) :
    ofList found =
      { errors := (found.filter (·.isError)).take limit
        warnings := (found.filter (!·.isError)).take limit
        totalErrors := (found.filter (·.isError)).length
        totalWarnings := (found.filter (!·.isError)).length } := by
  rw [ofList, foldl_push, foldl_keep, foldl_keep]
  change Diagnostics.mk _ _ (0 + _) (0 + _) = _
  rw [Nat.zero_add, Nat.zero_add]
  rfl

theorem errors_ofList (found : List Diagnostic) :
    (ofList found).errors = (found.filter (·.isError)).take limit := by
  rw [ofList_eq]

theorem totalErrors_ofList (found : List Diagnostic) :
    (ofList found).totalErrors = (found.filter (·.isError)).length := by
  rw [ofList_eq]

/-- A log that counts no error keeps none. -/
theorem errors_ofList_eq_nil {found : List Diagnostic} (h : (ofList found).totalErrors = 0) :
    (ofList found).errors = [] := by
  rw [totalErrors_ofList, List.length_eq_zero_iff] at h
  rw [errors_ofList, h]
  rfl

/-! ## Recording what a later stage collected -/

private theorem filter_take_filter (p : Diagnostic → Bool) (found : List Diagnostic) (n : Nat) :
    ((found.filter p).take n).filter p = (found.filter p).take n := by
  apply List.filter_eq_self.2
  intro d hd
  exact (List.mem_filter.1 (List.mem_of_mem_take hd)).2

private theorem filter_take_filter_eq_nil {p q : Diagnostic → Bool}
    (h : ∀ d, p d = true → q d = false) (found : List Diagnostic) (n : Nat) :
    ((found.filter p).take n).filter q = [] := by
  apply List.filter_eq_nil_iff.2
  intro d hd
  rw [h d (List.mem_filter.1 (List.mem_of_mem_take hd)).2]
  exact nofun

/-- Filling up what is kept with what a later stage kept is the same as filling
it up with all that the stage found. -/
theorem take_append_take {α : Type} (first later : List α) (n : Nat) :
    first.take n ++ (later.take n).take (n - min n first.length) = (first ++ later).take n := by
  have hroom : min (n - min n first.length) n = n - first.length := by omega
  rw [List.take_take, List.take_append, hroom]

/-- What was collected in two stages is what one stage would have collected. -/
theorem ofList_append (first later : List Diagnostic) :
    ofList first ++ ofList later = ofList (first ++ later) := by
  change append (ofList first) (ofList later) = _
  simp only [append]
  rw [ofList_eq later, ofList_eq (first ++ later), foldl_push, ofList_eq first]
  have herrors (d : Diagnostic) (h : d.isError = true) : (!d.isError) = false := by rw [h]; rfl
  have hwarnings (d : Diagnostic) (h : (!d.isError) = true) : d.isError = false := by
    simpa using h
  simp only [List.filter_append, foldl_keep, filter_take_filter, filter_take_filter_eq_nil herrors,
    filter_take_filter_eq_nil hwarnings, List.append_nil, List.nil_append, take_append_take,
    List.length_append, List.length_take, mk.injEq, true_and]
  omega

end Diagnostics

/-! ## Complaints -/

/-- The number of errors among complaints. -/
def errorCount (complaints : List Complaint) : Nat :=
  complaints.countP fun complaint => complaint.problem.severity = .error

theorem errorCount_append (first later : List Complaint) :
    errorCount (first ++ later) = errorCount first + errorCount later :=
  List.countP_append

theorem errorCount_of_errors {complaints : List Complaint}
    (h : ∀ complaint ∈ complaints, complaint.problem.severity = .error) :
    errorCount complaints = complaints.length :=
  List.countP_eq_length.2 fun complaint hmem => decide_eq_true (h complaint hmem)

/-- Warnings are not counted, wherever they stand. -/
theorem errorCount_of_warnings {problems : List Problem}
    (h : ∀ problem ∈ problems, problem.severity = .warning) (span : Span) :
    errorCount (problems.map (⟨·, span⟩)) = 0 := by
  apply List.countP_eq_zero.2
  intro complaint hcomplaint
  obtain ⟨problem, hproblem, rfl⟩ := List.mem_map.1 hcomplaint
  simp [h problem hproblem]

namespace Diagnostics

/-- A complaint about `source` as it is recorded. -/
def diagnosed (source : Source) (c : Complaint) : Diagnostic :=
  source.diagnose c.problem.issue c.span

theorem complainAll_eq_foldl (log : Diagnostics) (source : Source) (complaints : List Complaint) :
    log.complainAll source complaints = (complaints.map (diagnosed source)).foldl push log := by
  rw [List.foldl_map]
  rfl

theorem complainAll_empty (source : Source) (complaints : List Complaint) :
    complainAll ∅ source complaints = ofList (complaints.map (diagnosed source)) :=
  complainAll_eq_foldl ∅ source complaints

/-- Few errors are all kept. -/
theorem complainAll_of_errors (source : Source) {complaints : List Complaint}
    (herrors : ∀ complaint ∈ complaints, complaint.problem.severity = .error)
    (hfew : complaints.length ≤ limit) :
    complainAll ∅ source complaints =
      ⟨complaints.map (diagnosed source), [], complaints.length, 0⟩ := by
  have hall : ∀ d ∈ complaints.map (diagnosed source), d.isError = true := by
    intro d hd
    obtain ⟨complaint, hmem, rfl⟩ := List.mem_map.1 hd
    exact decide_eq_true (herrors complaint hmem)
  have hnone : (complaints.map (diagnosed source)).filter (!·.isError) = [] := by
    refine List.filter_eq_nil_iff.2 fun d hd => ?_
    rw [hall d hd]
    exact Bool.false_ne_true
  rw [complainAll_empty, ofList_eq, List.filter_eq_self.2 hall, hnone,
    List.take_of_length_le (by rw [List.length_map]; exact hfew), List.length_map]
  rfl

theorem complainAll_append (log : Diagnostics) (source : Source) (first later : List Complaint) :
    log.complainAll source (first ++ later) =
      (log.complainAll source first).complainAll source later :=
  List.foldl_append

/-- Complaints add the errors among them. -/
theorem totalErrors_complainAll (log : Diagnostics) (source : Source)
    (complaints : List Complaint) :
    (log.complainAll source complaints).totalErrors = log.totalErrors + errorCount complaints := by
  rw [complainAll_eq_foldl, foldl_push]
  change log.totalErrors + _ = _
  rw [← List.countP_eq_length_filter, List.countP_map]
  rfl

/-! ## What is kept -/

theorem mem_keep {kept : List Diagnostic} {d e : Diagnostic} (h : d ∈ keep kept e) :
    d ∈ kept ∨ d = e := by
  unfold keep at h
  split at h
  · exact (List.mem_append.1 h).imp id List.mem_singleton.1
  · exact .inl h

/-- What is kept was kept before or is new. -/
theorem mem_kept_push {log : Diagnostics} {d e : Diagnostic} (h : d ∈ (log.push e).kept) :
    d ∈ log.kept ∨ d = e := by
  simp only [kept, List.mem_append] at h ⊢
  cases herror : e.isError with
  | true =>
    rw [push_of_error herror] at h
    rcases h with h | h
    · exact (mem_keep h).imp .inl id
    · exact .inl (.inr h)
  | false =>
    rw [push_of_warning herror] at h
    rcases h with h | h
    · exact .inl (.inl h)
    · exact (mem_keep h).imp .inr id

theorem mem_kept_foldl_push {found : List Diagnostic} {log : Diagnostics} {d : Diagnostic}
    (h : d ∈ (found.foldl push log).kept) : d ∈ log.kept ∨ d ∈ found := by
  induction found generalizing log with
  | nil => exact .inl h
  | cons e later ih =>
    rcases ih h with h | h
    · rcases mem_kept_push h with h | rfl
      · exact .inl h
      · exact .inr List.mem_cons_self
    · exact .inr (List.mem_cons_of_mem e h)

theorem mem_kept_append {log later : Diagnostics} {d : Diagnostic} (h : d ∈ (log ++ later).kept) :
    d ∈ log.kept ∨ d ∈ later.kept :=
  mem_kept_foldl_push h

theorem mem_kept_complainAll {log : Diagnostics} {source : Source} {complaints : List Complaint}
    {d : Diagnostic} (h : d ∈ (log.complainAll source complaints).kept) :
    d ∈ log.kept ∨ ∃ complaint ∈ complaints, d = diagnosed source complaint := by
  rw [complainAll_eq_foldl] at h
  refine (mem_kept_foldl_push h).imp id fun hmem => ?_
  obtain ⟨complaint, hcomplaint, rfl⟩ := List.mem_map.1 hmem
  exact ⟨complaint, hcomplaint, rfl⟩

/-! ## Logs that grow -/

/-- The log `after` is `before` with complaints about `source`. -/
def Extends (source : Source) (before after : Diagnostics) : Prop :=
  ∃ complaints, after = before.complainAll source complaints

namespace Extends

variable {source : Source} {before middle after : Diagnostics}

theorem refl (source : Source) (log : Diagnostics) : Extends source log log := ⟨[], rfl⟩

theorem trans (h : Extends source before middle) (h' : Extends source middle after) :
    Extends source before after := by
  obtain ⟨first, rfl⟩ := h
  obtain ⟨later, rfl⟩ := h'
  exact ⟨first ++ later, (complainAll_append before source first later).symm⟩

theorem complain (log : Diagnostics) (complaint : Complaint) :
    Extends source log (log.complain source complaint) :=
  ⟨[complaint], rfl⟩

theorem totalErrors_le (h : Extends source before after) :
    before.totalErrors ≤ after.totalErrors := by
  obtain ⟨complaints, rfl⟩ := h
  rw [totalErrors_complainAll]
  exact Nat.le_add_right _ _

/-- A log that was made from the empty one keeps no error when it counts
none. -/
theorem errors_eq_nil (h : Extends source ∅ after) (hzero : after.totalErrors = 0) :
    after.errors = [] := by
  obtain ⟨complaints, rfl⟩ := h
  rw [complainAll_empty] at hzero ⊢
  exact errors_ofList_eq_nil hzero

/-- What two stages collected is what one stage could have collected. -/
theorem append {first later : Diagnostics} (h : Extends source ∅ first)
    (h' : Extends source ∅ later) : Extends source ∅ (first ++ later) := by
  obtain ⟨complaints, rfl⟩ := h
  obtain ⟨more, rfl⟩ := h'
  refine ⟨complaints ++ more, ?_⟩
  rw [complainAll_empty, complainAll_empty, complainAll_empty, ofList_append, List.map_append]

/-- The errors of two stages add up, whether they were kept or not. -/
theorem totalErrors_append {first later : Diagnostics} (h : Extends source ∅ first)
    (h' : Extends source ∅ later) :
    (first ++ later).totalErrors = first.totalErrors + later.totalErrors := by
  obtain ⟨complaints, rfl⟩ := h
  obtain ⟨more, rfl⟩ := h'
  rw [complainAll_empty, complainAll_empty, ofList_append, totalErrors_ofList, totalErrors_ofList,
    totalErrors_ofList, List.filter_append, List.length_append]

end Extends

/-- The log `after` is `before` with complaints about `source`, of which
`errors` are errors. -/
def Gains (source : Source) (before after : Diagnostics) (errors : Nat) : Prop :=
  ∃ complaints, after = before.complainAll source complaints ∧ errorCount complaints = errors

namespace Gains

variable {source : Source} {before middle after : Diagnostics} {errors more : Nat}

theorem refl (source : Source) (log : Diagnostics) : Gains source log log 0 := ⟨[], rfl, rfl⟩

theorem trans (h : Gains source before middle errors) (h' : Gains source middle after more) :
    Gains source before after (errors + more) := by
  obtain ⟨first, rfl, rfl⟩ := h
  obtain ⟨later, rfl, rfl⟩ := h'
  exact ⟨first ++ later, (complainAll_append before source first later).symm,
    errorCount_append first later⟩

theorem toExtends (h : Gains source before after errors) : Extends source before after := by
  obtain ⟨complaints, heq, _⟩ := h
  exact ⟨complaints, heq⟩

theorem totalErrors (h : Gains source before after errors) :
    after.totalErrors = before.totalErrors + errors := by
  obtain ⟨complaints, rfl, rfl⟩ := h
  exact totalErrors_complainAll before source complaints

end Gains

end Diagnostics

end UnitScript
