import UnitScript.Proofs.Diagnostics
import UnitScript.Proofs.Lines

/-!
# Spans inside a source

A span that lies inside a source starts on a line of it, does not end before it
starts, and ends on a line of it too.

* `Position` is ordered linearly, so that `min` and `max` of positions are what
  they should be.
* `Source.Covers` says that a span lies inside; `Covers.join` says that the join
  of two such spans does.
* `Source.Quotes` says that a diagnostic points inside and quotes its line;
  `Covers.quotes` says that a diagnostic of such a span does.
* `Diagnostics.Marks` says that a log keeps only diagnostics of spans with some
  property, and its lemmas follow it through the log.
-/

namespace UnitScript

namespace Position

variable {a b c : Position}

theorem le_iff : a ≤ b ↔ a.line < b.line ∨ a.line = b.line ∧ a.column ≤ b.column := Iff.rfl

theorem le_refl (a : Position) : a ≤ a := .inr ⟨rfl, Nat.le_refl _⟩

theorem le_trans (h : a ≤ b) (h' : b ≤ c) : a ≤ c := by
  rw [le_iff] at h h' ⊢
  omega

theorem le_of_not_le (h : ¬a ≤ b) : b ≤ a := by
  rw [le_iff] at h ⊢
  omega

/-- The lesser of two positions is one of them, and not behind either. -/
theorem min_cases (a b : Position) : (min a b = a ∧ a ≤ b) ∨ (min a b = b ∧ b ≤ a) := by
  by_cases h : a ≤ b
  · exact .inl ⟨if_pos h, h⟩
  · exact .inr ⟨if_neg h, le_of_not_le h⟩

/-- The greater of two positions is one of them, and not before either. -/
theorem max_cases (a b : Position) : (max a b = a ∧ b ≤ a) ∨ (max a b = b ∧ a ≤ b) := by
  by_cases h : a ≤ b
  · exact .inr ⟨if_pos h, h⟩
  · exact .inl ⟨if_neg h, le_of_not_le h⟩

end Position

namespace Source

/-- The span lies inside the source: lines and columns are counted from one, it
does not end before it starts, and it ends on a line of the source. -/
structure Covers (source : Source) (span : Span) : Prop where
  firstLine : 1 ≤ span.first.line
  lines : span.first.line ≤ span.last.line
  lastLine : span.last.line ≤ source.lineCount
  ordered : span.first ≤ span.last
  firstColumn : 1 ≤ span.first.column
  lastColumn : 1 ≤ span.last.column

variable {source : Source}

theorem one_le_lineCount (source : Source) : 1 ≤ source.lineCount := by
  rw [lineCount_eq_count]
  exact Nat.le_add_left _ _

/-- A single position on a line of the source lies inside. -/
theorem covers_point {p : Position} (hline : 1 ≤ p.line) (hlast : p.line ≤ source.lineCount)
    (hcolumn : 1 ≤ p.column) : source.Covers (.point p) :=
  ⟨hline, Nat.le_refl _, hlast, p.le_refl, hcolumn, hcolumn⟩

theorem covers_origin (source : Source) : source.Covers (.point .origin) :=
  covers_point (Nat.le_refl 1) source.one_le_lineCount (Nat.le_refl 1)

/-- What covers two spans inside the source lies inside the source. -/
theorem Covers.join {a b : Span} (ha : source.Covers a) (hb : source.Covers b) :
    source.Covers (a.join b) := by
  have hordered : (a.join b).first ≤ (a.join b).last := by
    have hfirst : min a.first b.first ≤ a.first := by
      rcases Position.min_cases a.first b.first with ⟨heq, _⟩ | ⟨heq, hle⟩
      · rw [heq]
        exact Position.le_refl _
      · rw [heq]
        exact hle
    have hlast : a.last ≤ max a.last b.last := by
      rcases Position.max_cases a.last b.last with ⟨heq, _⟩ | ⟨heq, hle⟩
      · rw [heq]
        exact Position.le_refl _
      · rw [heq]
        exact hle
    exact Position.le_trans hfirst (Position.le_trans ha.ordered hlast)
  have hlines : (a.join b).first.line ≤ (a.join b).last.line := by
    rcases hordered with hlt | ⟨heq, _⟩
    · exact Nat.le_of_lt hlt
    · exact Nat.le_of_eq heq
  -- both ends of the join are ends of one of the two
  have hends : ((a.join b).first = a.first ∨ (a.join b).first = b.first) ∧
      ((a.join b).last = a.last ∨ (a.join b).last = b.last) :=
    ⟨(Position.min_cases a.first b.first).imp And.left And.left,
      (Position.max_cases a.last b.last).imp And.left And.left⟩
  refine ⟨?_, hlines, ?_, hordered, ?_, ?_⟩
  · rcases hends.1 with heq | heq <;> rw [heq]
    · exact ha.firstLine
    · exact hb.firstLine
  · rcases hends.2 with heq | heq <;> rw [heq]
    · exact ha.lastLine
    · exact hb.lastLine
  · rcases hends.1 with heq | heq <;> rw [heq]
    · exact ha.firstColumn
    · exact hb.firstColumn
  · rcases hends.2 with heq | heq <;> rw [heq]
    · exact ha.lastColumn
    · exact hb.lastColumn

/-- The diagnostic points inside the source and quotes the line that it starts
on. -/
structure Quotes (source : Source) (d : Diagnostic) : Prop where
  covers : source.Covers d.span
  sourceLine : source.line? d.span.first.line = some d.sourceLine

/-- A diagnostic of a span inside the source quotes a line of it. -/
theorem Covers.quotes {span : Span} (h : source.Covers span) (issue : Issue) :
    source.Quotes (source.diagnose issue span) := by
  have hsome := (source.isSome_line? span.first.line).2
    ⟨h.firstLine, Nat.le_trans h.lines h.lastLine⟩
  obtain ⟨line, hline⟩ := Option.isSome_iff_exists.1 hsome
  refine ⟨h, hline.trans ?_⟩
  rw [diagnose, Issue.locate, hline]
  rfl

end Source

namespace Diagnostics

variable {source : Source} {P : Span → Prop} {log later : Diagnostics}

/-- All that is kept in the log was reported about the source, at spans with the
property `P`. -/
def Marks (source : Source) (P : Span → Prop) (log : Diagnostics) : Prop :=
  ∀ d ∈ log.kept, ∃ issue span, P span ∧ d = source.diagnose issue span

theorem marks_empty : Marks source P ∅ := fun _ hd => absurd hd List.not_mem_nil

namespace Marks

theorem report (h : Marks source P log) (issue : Issue) {span : Span} (hspan : P span) :
    Marks source P (log.report source issue span) := by
  intro d hd
  rcases mem_kept_push hd with hd | rfl
  · exact h d hd
  · exact ⟨issue, span, hspan, rfl⟩

theorem complain (h : Marks source P log) {complaint : Complaint} (hspan : P complaint.span) :
    Marks source P (log.complain source complaint) :=
  h.report complaint.problem.issue hspan

theorem complainAll (h : Marks source P log) {complaints : List Complaint}
    (hspans : ∀ complaint ∈ complaints, P complaint.span) :
    Marks source P (log.complainAll source complaints) := by
  intro d hd
  rcases mem_kept_complainAll hd with hd | ⟨complaint, hmem, rfl⟩
  · exact h d hd
  · exact ⟨complaint.problem.issue, complaint.span, hspans complaint hmem, rfl⟩

theorem append (h : Marks source P log) (h' : Marks source P later) :
    Marks source P (log ++ later) := by
  intro d hd
  rcases mem_kept_append hd with hd | hd
  · exact h d hd
  · exact h' d hd

/-- What is reported inside the source quotes it. -/
theorem quotes (h : Marks source source.Covers log) {d : Diagnostic} (hd : d ∈ log.kept) :
    source.Quotes d := by
  obtain ⟨issue, span, hspan, rfl⟩ := h d hd
  exact hspan.quotes issue

end Marks

end Diagnostics

end UnitScript
