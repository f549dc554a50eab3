import UnitScript.Proofs.Grammar.Spans
import UnitScript.Proofs.Outcome
import UnitScript.Proofs.Session.Logging
import UnitScript.Proofs.Token.Positions

/-!
# Diagnostics point inside the source

All stages report at spans that come from tokens, some of them joined, so every
diagnostic of an outcome points inside the source and quotes the line on which it
starts.

* `within_of_mayLog` says that an expression complains at spans of its parts;
  `marks_check` follows from it for the check.
* `Session.KeepsMarks` says that the log of a session goes on with reports at such
  spans; `keepsMarks_on` carries it through single steps and so through runs.
* `diagnostics_inside` puts the stages together.
-/

namespace UnitScript

variable {P : Span → Prop}

/-! ## The check -/

/-- What an expression complains about stands in it. -/
theorem Expr.within_of_mayLog {registry : Registry} {c : Complaint} {e : Expr} (hspans : e.Within P)
    (h : e.MayLog registry c) : P c.span := by
  induction e with
  | literal value span => exact h.elim
  | identifier name span => exact h.elim
  | negate operand span ih => exact ih hspans.1 h
  | binary op left right span ihl ihr =>
    rcases h with h | h | ⟨h, _⟩
    · exact ihl hspans.1 h
    · exact ihr hspans.2.1 h
    · rw [h]
      exact hspans.2.2
  | cast value unit span ih =>
    rcases h with h | h | ⟨h, _⟩
    · obtain ⟨part, hpart, hspan⟩ := unit.complaint_span_evaluate registry c h
      rw [hspan]
      exact hspans.2.1 part hpart
    · exact ih hspans.1 h
    · rw [h]
      exact hspans.2.2
  | paren inner span ih => exact ih hspans.1 h

/-- The check complains about what evaluation would complain about. -/
theorem Expr.mayLog_of_unitComplaints {registry : Registry} {e : Expr} {c : Complaint}
    (h : c ∈ e.unitComplaints registry) : e.MayLog registry c := by
  induction e with
  | literal value span => cases h
  | identifier name span => cases h
  | negate operand span ih => exact ih h
  | binary op left right span ihl ihr =>
    rcases List.mem_append.1 h with h | h
    · exact .inl (ihl h)
    · exact .inr (.inl (ihr h))
  | cast value unit span ih =>
    rcases List.mem_append.1 h with h | h
    · exact .inr (.inl (ih h))
    · exact .inl h
  | paren inner span ih => exact ih h

namespace Stmt

mutual

theorem within_unitComplaints {registry : Registry} (statement : Stmt)
    (h : ∀ e ∈ statement.exprs, e.Within P) :
    ∀ c ∈ statement.unitComplaints registry, P c.span := by
  unfold Stmt.exprs at h
  unfold Stmt.unitComplaints
  cases statement with
  | assign target value span =>
    exact fun c hc => Expr.within_of_mayLog (List.forall_mem_singleton.1 h)
      (Expr.mayLog_of_unitComplaints hc)
  | display value =>
    exact fun c hc => Expr.within_of_mayLog (List.forall_mem_singleton.1 h)
      (Expr.mayLog_of_unitComplaints hc)
  | block body span => exact within_allUnitComplaints body h

theorem within_allUnitComplaints {registry : Registry} (statements : List Stmt)
    (h : ∀ e ∈ Stmt.allExprs statements, e.Within P) :
    ∀ c ∈ Stmt.allUnitComplaints registry statements, P c.span := by
  unfold Stmt.allExprs at h
  unfold Stmt.allUnitComplaints
  cases statements with
  | nil => exact fun c hc => absurd hc List.not_mem_nil
  | cons statement later =>
    obtain ⟨hfirst, hlater⟩ := List.forall_mem_append.1 h
    exact List.forall_mem_append.2
      ⟨within_unitComplaints statement hfirst, within_allUnitComplaints later hlater⟩

end

end Stmt

theorem Program.marks_check (registry : Registry) (source : Source) {program : Program}
    (h : Stmt.AllWithin P program.statements) :
    Diagnostics.Marks source P (program.check registry source) :=
  Diagnostics.marks_empty.complainAll (Stmt.within_allUnitComplaints _ h.exprs)

/-! ## Execution -/

namespace Session

variable {π ρ α : Type}

/-- The later session reports about the same source, and what it added to the log
was reported at spans with the property `P`. -/
def KeepsMarks (P : Span → Prop) (before after : Session π ρ) : Prop :=
  after.source = before.source ∧
    (Diagnostics.Marks before.source P before.store.log →
      Diagnostics.Marks before.source P after.store.log)

namespace KeepsMarks

variable {before middle after : Session π ρ}

theorem refl (session : Session π ρ) : KeepsMarks P session session := ⟨rfl, id⟩

theorem trans (h : KeepsMarks P before middle) (h' : KeepsMarks P middle after) :
    KeepsMarks P before after := by
  obtain ⟨hsource, hmarks⟩ := h
  obtain ⟨hsource', hmarks'⟩ := h'
  rw [hsource] at hsource' hmarks'
  exact ⟨hsource', fun hbefore => hmarks' (hmarks hbefore)⟩

theorem of_scopes (session : Session π ρ) (scopes : Scopes ρ) :
    KeepsMarks P session { session with scopes := scopes } := ⟨rfl, id⟩

theorem of_sameButStrings (h : before.SameButStrings after) : KeepsMarks P before after := by
  obtain ⟨pool, rfl⟩ := h
  exact refl before

end KeepsMarks

/-- A computation that complains at spans with the property `P` leaves such a
log. -/
theorem keepsMarks_evaluating {eval : Context ρ → Eval π α} {allowed : Complaint → Prop}
    (hallowed : ∀ c, allowed c → P c.span) {session : Session π ρ}
    (h : Eval.Logs session.source allowed (eval session.context)) :
    KeepsMarks P session (final (evaluating eval session)) := by
  obtain ⟨complaints, hcomplaints, hresult⟩ := h session.store.pool
  have hspans := fun c hc => hallowed c (hcomplaints c hc)
  unfold evaluating
  rcases hresult with ⟨value, pool, hresult⟩ | ⟨fault, pool, hresult⟩
  · rw [show session.store = ⟨session.store.pool, session.store.log⟩ from rfl, hresult]
    exact ⟨rfl, fun hbefore => hbefore.complainAll hspans⟩
  · rw [show session.store = ⟨session.store.pool, session.store.log⟩ from rfl, hresult]
    exact ⟨rfl, fun hbefore => hbefore.complainAll hspans⟩

variable [StringPool π ρ] [DecidableEq ρ]

/-- An assignment complains at spans of its value. -/
theorem keepsMarks_assign (name : String) {e : Expr} (h : e.Within P) (session : Session π ρ) :
    KeepsMarks P session (final (assign name e session)) := by
  have hlogged : KeepsMarks P session (final (evaluating (Eval.expr · e) session)) :=
    keepsMarks_evaluating (fun c => Expr.within_of_mayLog h) (Eval.logs_expr session.context e)
  unfold evaluating at hlogged
  rcases assign_steps name e session with
    ⟨fault, store, hresult, heq⟩ | ⟨evaluated, store, hresult, heq | ⟨scope, outer, _, heq⟩⟩
  · simp only [hresult] at hlogged
    rw [heq]
    exact hlogged
  · simp only [hresult] at hlogged
    rw [heq]
    exact hlogged
  · simp only [hresult] at hlogged
    rw [heq, final_discard]
    generalize evaluated.settle name ((scope.get? name).bind (·.unit)) = settled
    -- what is wrong with the assignment itself is reported at its value
    have hnoted : KeepsMarks P session (session.noted store e.span settled.2) := by
      refine ⟨rfl, fun hbefore => (hlogged.2 hbefore).complainAll fun complaint hmem => ?_⟩
      obtain ⟨problem, _, rfl⟩ := List.mem_map.1 hmem
      exact h.span
    rcases frame_keep name settled.1 (session.noted store e.span settled.2) with
      hframe | ⟨scope', outer', _, hframe⟩
    · exact hnoted.trans (.of_sameButStrings hframe)
    · exact hnoted.trans ((KeepsMarks.of_scopes _ _).trans (.of_sameButStrings hframe))

variable [ToString ρ]

/-- Every step of statements with such spans reports at such spans. -/
theorem keepsMarks_on :
    StepRelationOn (Expr.Within P) (KeepsMarks P (π := π) (ρ := ρ)) where
  refl := .refl
  trans := .trans
  ticks _ := ⟨rfl, id⟩
  assigns name _ session h := keepsMarks_assign name h session
  renders e session h :=
    keepsMarks_evaluating (fun c => Expr.within_of_mayLog h) (Eval.logs_render session.context e)
  emits line session := by
    unfold emit
    split <;> exact ⟨rfl, id⟩
  opens session := .of_scopes session _
  closes session :=
    (KeepsMarks.of_scopes session _).trans (.of_sameButStrings (frame_closeScope session))

/-- A run is stopped in one of its statements. -/
theorem mem_of_runAll {statements : List Stmt} {session : Session π ρ} {statement : Stmt}
    {fault : Fault} (h : (runAll statements session).1 = some (statement, fault)) :
    statement ∈ statements := by
  induction statements generalizing session with
  | nil => cases h
  | cons first later ih =>
    unfold runAll at h
    split at h
    · exact List.mem_cons_of_mem first (ih h)
    · cases h
      exact List.mem_cons_self

/-- The diagnostics of an execution are reported at spans of the statements. -/
theorem marks_outcome (source : Source) (limits : Limits) (registry : Registry) (pool : π)
    {statements : List Stmt} (h : Stmt.AllWithin P statements) {before : Diagnostics}
    (hbefore : Diagnostics.Marks source P before) :
    Diagnostics.Marks source P
      (outcome statements before (start source limits registry pool : Session π ρ)).diagnostics := by
  obtain ⟨hsource, hmarks⟩ := keepsMarks_on.execAll statements h.exprs
    (start source limits registry pool : Session π ρ)
  rw [← runAll_final] at hsource hmarks
  have hmerged := hbefore.append (hmarks Diagnostics.marks_empty)
  unfold outcome
  simp only
  split
  · next statement fault hstopped =>
      rw [hsource]
      exact hmerged.report _ (h statement (mem_of_runAll hstopped)).span
  · exact hmerged

end Session

/-! ## Outcomes -/

/-- Every diagnostic of an outcome points inside the source and quotes the line on
which it starts, whichever stage it is from. -/
theorem Source.diagnostics_inside (source : Source) (limits : Limits) :
    ∀ d ∈ (source.run limits).diagnostics.kept, source.Quotes d := by
  obtain ⟨hparsed, hprogram⟩ := Program.within_parse source Covers.join source.covers_origin
    fun _ => source.covers_lex
  have hread := (Diagnostics.marks_empty.append source.marks_lex).append hparsed
  suffices h : Diagnostics.Marks source source.Covers (source.run limits).diagnostics from
    fun d hd => h.quotes hd
  unfold run
  simp only
  split
  · exact hread
  · next program heq =>
      have hspans := hprogram program heq
      have hchecked := hread.append (Program.marks_check Registry.standard source hspans)
      split
      · exact hchecked
      · exact Session.marks_outcome source limits Registry.standard Heap.empty hspans hchecked

/-- A fault inside a block is reported at the block, which goes over three lines. -/
theorem Source.diagnostics_inside_block :
    ∃ d ∈ (run ⟨"", "x = 1\n\x7b\ny\n\x7d"⟩ ⟨10, 10⟩).diagnostics.kept,
      d.span = ⟨⟨2, 1⟩, ⟨4, 1⟩⟩ ∧ d.sourceLine = "\x7b" ∧
        Quotes ⟨"", "x = 1\n\x7b\ny\n\x7d"⟩ d := by
  let d : Diagnostic := ⟨"", .runtimeFault, .error, .runtime, "undefined variable 'y'",
    ⟨⟨2, 1⟩, ⟨4, 1⟩⟩, "\x7b", none⟩
  have hmem : d ∈ (run ⟨"", "x = 1\n\x7b\ny\n\x7d"⟩ ⟨10, 10⟩).diagnostics.kept := by decide +kernel
  exact ⟨d, hmem, rfl, rfl, diagnostics_inside _ _ d hmem⟩

end UnitScript
