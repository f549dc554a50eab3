import UnitScript.Program.Check
import UnitScript.Proofs.Diagnostics
import UnitScript.Proofs.Session.Evaluation
import UnitScript.Proofs.Session.Frames

/-!
# The unit check and the run find the same errors

The check walks over a program without running it; a run evaluates the unit of
every cast that it comes to.  What a run logs besides are warnings.  So a run
that is not stopped logs as many errors as the check finds, and one that is
stopped at most as many.

* The `_problems` lemmas list what operators and casts find, the `_warnings`
  lemmas say that neither they nor assignments find more than warnings.
* `Eval.Reports` and `Session.Reports` count the errors that a computation
  logs; `bind` adds them up.
* `reports_expr` and `reports_exec` compare with the check, one case for each
  shape of expression and statement.
* `check_counts_unit_errors` is the whole statement.
-/

namespace UnitScript

/-! ## Problems with dimensions are warnings -/

/-- Only sums and differences are wrong in themselves. -/
theorem Quantity.mismatch?_problems {op : ArithOp} {a b : Quantity} {problem : Problem}
    (h : mismatch? op a b = some problem) :
    ∃ left right, problem = .sumMismatch left right ∨ problem = .differenceMismatch left right := by
  unfold mismatch? at h
  split at h
  · cases op <;> cases h
    · exact ⟨_, _, .inl rfl⟩
    · exact ⟨_, _, .inr rfl⟩
  · cases h

theorem Quantity.bind_warnings (q : Quantity) (name : String) (previous : Option Binding) :
    ∀ problem ∈ (q.bind name previous).2, problem.severity = .warning := by
  intro problem hproblem
  cases previous with
  | none => cases hproblem
  | some binding =>
    simp only [bind] at hproblem
    split at hproblem
    · cases hproblem
    · cases List.mem_singleton.1 hproblem
      rfl

namespace Evaluated

variable {ρ : Type}

theorem combine_problems [DecidableEq ρ] {op : BinaryOp} {exponent : Expr}
    {lhs rhs result : Evaluated ρ} {problems : List Problem}
    (h : combine op exponent lhs rhs = .ok (result, problems)) :
    ∀ problem ∈ problems, ∃ left right,
      problem = .sumMismatch left right ∨ problem = .differenceMismatch left right := by
  intro problem hproblem
  obtain ⟨_, _, _, rfl⟩ | ⟨_, _, _, _, _, ⟨mismatch, hmismatch, _, rfl⟩ | ⟨_, _, _, rfl⟩⟩ :=
    combine_cases h
  · cases hproblem
  · cases List.mem_singleton.1 hproblem
    exact Quantity.mismatch?_problems hmismatch
  · cases hproblem

theorem combine_warnings [DecidableEq ρ] {op : BinaryOp} {exponent : Expr}
    {lhs rhs result : Evaluated ρ} {problems : List Problem}
    (h : combine op exponent lhs rhs = .ok (result, problems)) :
    ∀ problem ∈ problems, problem.severity = .warning := by
  intro problem hproblem
  obtain ⟨left, right, rfl | rfl⟩ := combine_problems h problem hproblem
  · rfl
  · rfl

theorem cast_problems (measure : Measure) (unit : UnitExpr) (bound : Option Binding)
    (inner : Evaluated ρ) :
    ∀ problem ∈ (inner.cast measure unit bound).2, ∃ held,
      problem = .castMismatch held unit measure.dimension := by
  intro problem hproblem
  simp only [cast, castValue] at hproblem
  split at hproblem
  · cases hproblem
  · split at hproblem
    · simp only at hproblem
      split at hproblem
      · cases hproblem
      · cases List.mem_singleton.1 hproblem
        exact ⟨_, rfl⟩
    · cases hproblem

theorem cast_warnings (measure : Measure) (unit : UnitExpr) (bound : Option Binding)
    (inner : Evaluated ρ) :
    ∀ problem ∈ (inner.cast measure unit bound).2, problem.severity = .warning := by
  intro problem hproblem
  obtain ⟨held, rfl⟩ := cast_problems measure unit bound inner problem hproblem
  rfl

theorem settle_warnings (name : String) (previous : Option Binding) (evaluated : Evaluated ρ) :
    ∀ problem ∈ (evaluated.settle name previous).2, problem.severity = .warning := by
  unfold settle
  split
  · next q _ => exact q.bind_warnings name previous
  · intro problem hproblem
    exact absurd hproblem List.not_mem_nil

end Evaluated

/-- The check counts the errors in the units of a program. -/
theorem Program.totalErrors_check (registry : Registry) (source : Source) (program : Program) :
    (program.check registry source).totalErrors =
      errorCount (Stmt.allUnitComplaints registry program.statements) := by
  have htotal := Diagnostics.totalErrors_complainAll ∅ source
    (Stmt.allUnitComplaints registry program.statements)
  rw [show (∅ : Diagnostics).totalErrors = 0 from rfl, Nat.zero_add] at htotal
  exact htotal

/-! ## Errors that an evaluation logs -/

namespace Eval

variable {π ρ α β : Type} {source : Source} {s : Store π}

/-- A computation that started with the store `before` logged complaints about
`source`: `errors` errors if it has a result, and at most that many if it
stopped. -/
def Reports (source : Source) (before : Store π) (errors : Nat) :
    EStateM.Result Fault (Store π) α → Prop
  | .ok _ s => Diagnostics.Gains source before.log s.log errors
  | .error _ s => ∃ fewer ≤ errors, Diagnostics.Gains source before.log s.log fewer

/-- Errors that were logged before count too. -/
theorem Reports.after {before : Store π} {errors more total : Nat}
    (hbefore : Diagnostics.Gains source before.log s.log errors)
    {result : EStateM.Result Fault (Store π) α} (h : Reports source s more result)
    (htotal : errors + more = total) : Reports source before total result := by
  subst htotal
  cases result with
  | ok value s' => exact hbefore.trans h
  | error fault s' =>
    obtain ⟨fewer, hle, hgains⟩ := h
    exact ⟨errors + fewer, by omega, hbefore.trans hgains⟩

/-- A computation that goes on logs the errors of both parts. -/
theorem Reports.bind {m : Eval π α} {next : α → Eval π β} {errors more total : Nat}
    (hm : Reports source s errors (m s))
    (hnext : ∀ value s', Reports source s' more (next value s'))
    (htotal : errors + more = total) : Reports source s total ((m >>= next) s) := by
  change Reports source s total (EStateM.bind m next s)
  unfold EStateM.bind
  cases hresult : m s with
  | ok value s' =>
    rw [hresult] at hm
    exact (hnext value s').after hm htotal
  | error fault s' =>
    rw [hresult] at hm
    obtain ⟨fewer, hle, hgains⟩ := hm
    exact ⟨fewer, by omega, hgains⟩

theorem reports_pure (value : α) : Reports source s 0 ((pure value : Eval π α) s) :=
  .refl source s.log

theorem reports_throw (fault : Fault) : Reports source s 0 ((throw fault : Eval π α) s) :=
  ⟨0, Nat.le_refl 0, .refl source s.log⟩

theorem reports_ofExcept {ε : Type} (fault : ε → Fault) (result : Except ε α) :
    Reports source s 0 (ofExcept fault result s) := by
  cases result with
  | ok value => exact .refl source s.log
  | error e => exact ⟨0, Nat.le_refl 0, .refl source s.log⟩

theorem reports_complain (ctx : Context ρ) (complaints : List Complaint) :
    Reports ctx.source s (errorCount complaints) (complain ctx complaints s) :=
  ⟨complaints, rfl, rfl⟩

theorem reports_complainAt (ctx : Context ρ) (span : Span) {problems : List Problem}
    (h : ∀ problem ∈ problems, problem.severity = .warning) :
    Reports ctx.source s 0 (complainAt ctx span problems s) :=
  ⟨_, rfl, errorCount_of_warnings h span⟩

variable [StringPool π ρ]

theorem reports_intern (text : String) : Reports source s 0 ((intern text : Eval π ρ) s) :=
  .refl source s.log

theorem reports_text (r : ρ) : Reports source s 0 ((Eval.text r : Eval π String) s) := by
  unfold Eval.text
  cases (StringPool.text r s.pool : Except Heap.Error String) with
  | ok text => exact .refl source s.log
  | error e => exact ⟨0, Nat.le_refl 0, .refl source s.log⟩

theorem reports_literal (value : Literal) :
    Reports source s 0 ((literal value : Eval π (Value ρ)) s) := by
  cases value with
  | string text => exact (reports_intern text).bind (fun _ _ => reports_pure _) rfl
  | _ => exact reports_pure _

variable [DecidableEq ρ]

theorem reports_binary (ctx : Context ρ) (op : BinaryOp) (exponent : Expr) (span : Span)
    (lhs rhs : Evaluated ρ) :
    Reports ctx.source s 0 (binary ctx op exponent span lhs rhs s) := by
  by_cases hconcat : ∃ a b, op = .arith .add ∧ lhs.value = .pointer a ∧ rhs.value = .pointer b
  · obtain ⟨a, b, rfl, ha, hb⟩ := hconcat
    rw [binary_concat ctx exponent span ha hb]
    refine (reports_text a).bind (fun front s₁ => ?_) (Nat.add_zero 0)
    refine (reports_text b).bind (fun back s₂ => ?_) (Nat.add_zero 0)
    exact (reports_intern _).bind (fun _ _ => reports_pure _) rfl
  · rw [binary_combine ctx exponent span fun a b hop ha hb => hconcat ⟨a, b, hop, ha, hb⟩]
    cases hcombined : Evaluated.combine op exponent lhs rhs with
    | error e => exact reports_ofExcept (α := Evaluated ρ × List Problem) Fault.value (.error e)
    | ok combined =>
      have hwarnings := Evaluated.combine_warnings hcombined
      exact (reports_complainAt ctx span hwarnings).bind (fun _ _ => reports_pure _) rfl

/-- An expression logs the errors that the check finds in its units.  A cast
comes to its unit before its value, so the errors come in another order. -/
theorem reports_expr (ctx : Context ρ) (e : Expr) (s : Store π) :
    Reports ctx.source s (errorCount (e.unitComplaints ctx.registry)) (expr ctx e s) := by
  induction e generalizing s with
  | literal value span =>
    exact (reports_literal value).bind (fun _ _ => reports_pure _) rfl
  | identifier name span =>
    cases hfound : ctx.scopes.lookup? name with
    | some held =>
      simp only [expr, hfound]
      exact reports_pure _
    | none =>
      simp only [expr, hfound]
      exact reports_throw _
  | negate operand span ih =>
    exact (ih s).bind (fun inner s' => reports_ofExcept _ _) rfl
  | binary op left right span ihl ihr =>
    refine (ihl s).bind (fun lhs s₁ => ?_) (errorCount_append _ _).symm
    exact (ihr s₁).bind (fun rhs s₂ => reports_binary ctx op right span lhs rhs) rfl
  | cast value unit span ih =>
    have htotal : errorCount (unit.evaluate ctx.registry).2 +
        errorCount (value.unitComplaints ctx.registry) =
        errorCount ((Expr.cast value unit span).unitComplaints ctx.registry) := by
      rw [Expr.unitComplaints, errorCount_append, Nat.add_comm]
    rw [expr_cast]
    refine (reports_complain ctx _).bind (fun _ s₁ => ?_) htotal
    refine (ih s₁).bind (fun inner s₂ => ?_) (Nat.add_zero _)
    have hwarnings := Evaluated.cast_warnings (unit.evaluate ctx.registry).1 unit
      (ctx.binding? value) inner
    exact (reports_complainAt ctx span hwarnings).bind (fun _ _ => reports_pure _) rfl
  | paren inner span ih => exact ih s

theorem reports_render [ToString ρ] (ctx : Context ρ) (e : Expr) (s : Store π) :
    Reports ctx.source s (errorCount (e.unitComplaints ctx.registry))
      ((render ctx e : Eval π String) s) := by
  refine (reports_expr ctx e s).bind (fun result s' => ?_) (Nat.add_zero _)
  cases result.value with
  | pointer r => exact reports_text r
  | _ => cases ctx.label? e result <;> exact reports_pure _

end Eval

/-! ## Errors that a statement logs -/

namespace Session

variable {π ρ α β : Type}

/-- An operation that started with `before` logged `errors` errors if it has a
result, and at most that many if it stopped.  The source and the units are the
same. -/
def Reports (before : Session π ρ) (errors : Nat) :
    EStateM.Result Fault (Session π ρ) α → Prop
  | .ok _ session =>
      session.source = before.source ∧ session.registry = before.registry ∧
        Diagnostics.Gains before.source before.store.log session.store.log errors
  | .error _ session =>
      session.source = before.source ∧ session.registry = before.registry ∧
        ∃ fewer ≤ errors, Diagnostics.Gains before.source before.store.log session.store.log fewer

/-- Errors that were logged before count too. -/
theorem Reports.after {before session : Session π ρ} {errors more : Nat}
    (hbefore : Reports before errors (.ok () session))
    {result : EStateM.Result Fault (Session π ρ) α} (h : Reports session more result) :
    Reports before (errors + more) result := by
  obtain ⟨hsource, hregistry, hgains⟩ := hbefore
  cases result with
  | ok value session' =>
    obtain ⟨hsource', hregistry', hgains'⟩ := h
    rw [hsource] at hgains'
    exact ⟨hsource'.trans hsource, hregistry'.trans hregistry, hgains.trans hgains'⟩
  | error fault session' =>
    obtain ⟨hsource', hregistry', fewer, hle, hgains'⟩ := h
    rw [hsource] at hgains'
    exact ⟨hsource'.trans hsource, hregistry'.trans hregistry, errors + fewer, by omega,
      hgains.trans hgains'⟩

theorem Reports.bind {session : Session π ρ} {m : Run π ρ α} {next : α → Run π ρ β}
    {errors more : Nat} (hm : Reports session errors (m session))
    (hnext : ∀ value session', session'.registry = session.registry →
      Reports session' more (next value session')) :
    Reports session (errors + more) ((m >>= next) session) := by
  rw [bind_eq]
  cases hresult : m session with
  | ok value session' =>
    rw [hresult] at hm
    exact Reports.after hm (hnext value session' hm.2.1)
  | error fault session' =>
    rw [hresult] at hm
    obtain ⟨hsource, hregistry, fewer, hle, hgains⟩ := hm
    exact ⟨hsource, hregistry, fewer, by omega, hgains⟩

/-- The count of errors, whether the operation stopped or not. -/
theorem Reports.gains {before : Session π ρ} {errors : Nat}
    {result : EStateM.Result Fault (Session π ρ) α} (h : Reports before errors result) :
    ∃ logged ≤ errors, (fault? result = none → logged = errors) ∧
      Diagnostics.Gains before.source before.store.log (final result).store.log logged := by
  cases result with
  | ok value session => exact ⟨errors, Nat.le_refl _, fun _ => rfl, h.2.2⟩
  | error fault session =>
    obtain ⟨_, _, fewer, hle, hgains⟩ := h
    exact ⟨fewer, hle, nofun, hgains⟩

/-- What leaves the source, the units and the log does not log anything. -/
theorem reports_of_final {session : Session π ρ}
    {result : EStateM.Result Fault (Session π ρ) α}
    (hsource : (final result).source = session.source)
    (hregistry : (final result).registry = session.registry)
    (hlog : (final result).store.log = session.store.log) : Reports session 0 result := by
  have hgains : Diagnostics.Gains session.source session.store.log (final result).store.log 0 := by
    rw [hlog]
    exact .refl _ _
  cases result with
  | ok value session' => exact ⟨hsource, hregistry, hgains⟩
  | error fault session' => exact ⟨hsource, hregistry, 0, Nat.le_refl 0, hgains⟩

theorem reports_pure (session : Session π ρ) (value : α) :
    Reports session 0 ((pure value : Run π ρ α) session) :=
  reports_of_final rfl rfl rfl

theorem reports_tick_bind {session : Session π ρ} {next : Unit → Run π ρ α} {errors : Nat}
    (hnext : Reports session.ticked errors (next () session.ticked)) :
    Reports session errors ((tick >>= next) session) := by
  rw [tick_bind]
  split
  · exact ⟨rfl, rfl, 0, Nat.zero_le _, .refl _ _⟩
  · exact hnext

theorem reports_emit (session : Session π ρ) (line : String) :
    Reports session 0 (emit line session) := by
  unfold emit
  split <;> exact reports_of_final rfl rfl rfl

theorem reports_evaluating {session : Session π ρ} (eval : Context ρ → Eval π α) {errors : Nat}
    (h : Eval.Reports session.source session.store errors (eval session.context session.store)) :
    Reports session errors (evaluating eval session) := by
  unfold evaluating
  cases hresult : eval session.context session.store with
  | ok value store =>
    rw [hresult] at h
    exact ⟨rfl, rfl, h⟩
  | error fault store =>
    rw [hresult] at h
    exact ⟨rfl, rfl, h⟩

variable [StringPool π ρ]

theorem reports_keep (session : Session π ρ) (name : String) (held : Variable ρ) :
    Reports session 0 (keep name held session) := by
  rcases frame_keep name held session with ⟨pool, heq⟩ | ⟨scope, outer, _, pool, heq⟩
  · exact reports_of_final (by rw [heq]) (by rw [heq]) (by rw [heq])
  · exact reports_of_final (by rw [heq]) (by rw [heq]) (by rw [heq])

theorem reports_closeScope (session : Session π ρ) : Reports session 0 (closeScope session) := by
  obtain ⟨pool, heq⟩ := frame_closeScope session
  exact reports_of_final (by rw [heq]) (by rw [heq]) (by rw [heq])

/-- Closing a scope after a body logs nothing more. -/
theorem reports_thenAlways {session : Session π ρ} {body : Run π ρ Unit} {errors : Nat}
    (hbody : Reports session errors (body session)) :
    Reports session errors (thenAlways body closeScope session) := by
  unfold thenAlways
  cases hresult : body session with
  | ok _ session' =>
    rw [hresult] at hbody
    exact Reports.after hbody (reports_closeScope session')
  | error fault session' =>
    rw [hresult] at hbody
    obtain ⟨hsource, hregistry, fewer, hle, hgains⟩ := hbody
    obtain ⟨pool, heq⟩ := frame_closeScope session'
    simp only
    cases hclosed : closeScope session' with
    | ok _ closed =>
      rw [hclosed] at heq
      cases heq
      exact ⟨hsource, hregistry, fewer, hle, hgains⟩
    | error _ closed =>
      rw [hclosed] at heq
      cases heq
      exact ⟨hsource, hregistry, fewer, hle, hgains⟩

variable [DecidableEq ρ]

theorem reports_assign (session : Session π ρ) (name : String) (e : Expr) :
    Reports session (errorCount (e.unitComplaints session.registry)) (assign name e session) := by
  have hexpr := Eval.reports_expr session.context e session.store
  rcases assign_steps name e session with
    ⟨fault, store, hresult, heq⟩ | ⟨evaluated, store, hresult, heq | ⟨scope, outer, _, heq⟩⟩
  · rw [hresult] at hexpr
    rw [heq]
    exact ⟨rfl, rfl, hexpr⟩
  · rw [hresult] at hexpr
    rw [heq]
    exact ⟨rfl, rfl, _, Nat.le_refl _, hexpr⟩
  · rw [hresult] at hexpr
    rw [heq]
    generalize hsettled : evaluated.settle name ((scope.get? name).bind (·.unit)) = settled
    have hwarnings := evaluated.settle_warnings name ((scope.get? name).bind (·.unit))
    rw [hsettled] at hwarnings
    have hnoted : Reports session (errorCount (e.unitComplaints session.registry))
        (.ok () (session.noted store e.span settled.2)) :=
      ⟨rfl, rfl, hexpr.trans ⟨_, rfl, errorCount_of_warnings hwarnings e.span⟩⟩
    exact Reports.after hnoted ((reports_keep _ name settled.1).bind fun _ session' _ =>
      reports_pure session' settled.1.value)

variable [ToString ρ]

mutual

/-- A statement logs the errors that the check finds in it. -/
theorem reports_exec (statement : Stmt) (session : Session π ρ) :
    Reports session (errorCount (statement.unitComplaints session.registry))
      (exec statement session) := by
  cases statement with
  | assign target value span =>
    unfold exec
    rw [Stmt.unitComplaints]
    refine reports_tick_bind ?_
    exact (reports_assign session.ticked target.text value).bind fun _ session' _ =>
      reports_pure session' ()
  | display value =>
    unfold exec
    rw [Stmt.unitComplaints]
    refine reports_tick_bind ?_
    have hrender := Eval.reports_render session.ticked.context value session.ticked.store
    exact (reports_evaluating (fun ctx => Eval.render ctx value) hrender).bind
      fun line session' _ => reports_emit session' line
  | block body span =>
    unfold exec
    rw [Stmt.unitComplaints]
    refine reports_tick_bind ?_
    exact reports_thenAlways (reports_execAll body
      { session.ticked with scopes := session.scopes.openScope })

/-- Statements log the errors that the check finds in them. -/
theorem reports_execAll (statements : List Stmt) (session : Session π ρ) :
    Reports session (errorCount (Stmt.allUnitComplaints session.registry statements))
      (execAll statements session) := by
  cases statements with
  | nil =>
    unfold execAll
    rw [Stmt.allUnitComplaints]
    exact reports_pure session ()
  | cons statement later =>
    unfold execAll
    rw [Stmt.allUnitComplaints, errorCount_append]
    refine (reports_exec statement session).bind fun _ session' hregistry => ?_
    rw [← hregistry]
    exact reports_execAll later session'

end

/-- A run of a program without the check logs at most as many errors as the
check finds, and as many when no fault stops it.  In particular it logs no
error at all when the check finds none, whatever the run does. -/
theorem check_counts_unit_errors (source : Source) (limits : Limits) (registry : Registry)
    (program : Program) :
    let result : EStateM.Result Fault (Session Heap Pointer) Unit :=
      execAll program.statements (start source limits registry Heap.empty)
    let logged := (final result).store.log
    let found := program.check registry source
    logged.totalErrors ≤ found.totalErrors ∧
    (fault? result = none → logged.totalErrors = found.totalErrors) ∧
    (found.totalErrors = 0 → logged.totalErrors = 0 ∧ logged.errors = []) := by
  intro result logged found
  have hfound : found.totalErrors =
      errorCount (Stmt.allUnitComplaints registry program.statements) :=
    program.totalErrors_check registry source
  obtain ⟨count, hle, hexact, hgains⟩ :=
    (reports_execAll program.statements
      (start source limits registry Heap.empty : Session Heap Pointer)).gains
  have hlogged : logged.totalErrors = count := by
    have htotal := hgains.totalErrors
    rw [show (start source limits registry Heap.empty : Session Heap Pointer).store.log.totalErrors
      = 0 from rfl, Nat.zero_add] at htotal
    exact htotal
  refine ⟨?_, ?_, ?_⟩
  · rw [hlogged, hfound]
    exact hle
  · intro hfault
    rw [hlogged, hfound]
    exact hexact hfault
  · intro hnone
    have hzero : logged.totalErrors = 0 := by
      rw [hfound] at hnone
      change count ≤ errorCount (Stmt.allUnitComplaints registry program.statements) at hle
      omega
    exact ⟨hzero, hgains.toExtends.errors_eq_nil hzero⟩

end Session

end UnitScript
