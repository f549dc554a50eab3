import UnitScript.Proofs.Session.Slots
import UnitScript.Proofs.Session.Warnings

/-!
# Changes of dimension

A variable that is assigned a quantity of another dimension becomes a plain
number, and the script is warned once.  There is no way back: a variable
without a dimension gets none by assignments, unless something that is not a
number is assigned to it in between.

* `Announces` counts the warnings that an assignment adds whatever was logged
  before it, and `Reassigned` says all that a successful one does to a binding.
* `Clears` are the calls after which a slot can start anew, and
  `dimensionless_performAll` follows a slot along calls without them.
* `exec_block` puts the bodies of blocks among the sessions that calls lead to.
* `dimension_changes_one_way` is the whole statement.
-/

namespace UnitScript

namespace Session

/-! ## Successful assignments -/

/-- The references are counted and the bindings are well formed, as in every
session that calls lead to. -/
structure Proper (session : Session Heap Pointer) : Prop where
  sound : session.Sound
  wellFormed : session.scopes.WellFormed

namespace Proper

variable {session : Session Heap Pointer}

theorem ticked (h : session.Proper) : session.ticked.Proper :=
  ⟨⟨h.sound.accounts, h.sound.opened⟩, h.wellFormed⟩

theorem exec (h : session.Proper) (statement : Stmt) :
    (final (Session.exec statement session)).Proper :=
  ⟨(safe_exec statement h.sound).final.1,
    wellFormed_invariant.stepRelation.exec statement session h.wellFormed⟩

theorem performAll (h : session.Proper) (calls : List Call) : (session.performAll calls).Proper :=
  ⟨(sound_performAll h.sound calls).1, wellFormed_invariant.performAll h.wellFormed calls⟩

end Proper

theorem proper_start (source : Source) (limits : Limits) (registry : Registry) :
    (start source limits registry Heap.empty : Session Heap Pointer).Proper :=
  ⟨sound_start source limits registry, Scopes.wellFormed_global⟩

/-- The session with another log. -/
def logging {π ρ : Type} (log : Diagnostics) (session : Session π ρ) : Session π ρ :=
  { session with store := { session.store with log := log } }

/-- Whatever was logged before, assigning `e` to `name` adds the same
complaints, of which `count` are about a change of dimension. -/
def Announces (session : Session Heap Pointer) (name : String) (e : Expr) (count : Nat) : Prop :=
  ∃ complaints : List Complaint,
    (∀ log, (final (assign name e (session.logging log))).store.log =
      log.complainAll session.source complaints) ∧
    complaints.countP (fun c => c.problem.code = .dimensionDowngrade) = count

/-- What an assignment of `e`, which evaluates to `evaluated`, does to a name
with the binding `previous`. -/
structure Reassigned (session : Session Heap Pointer) (name : String) (e : Expr)
    (previous : Binding) (evaluated : Evaluated Pointer) (value : Value Pointer)
    (after : Session Heap Pointer) : Prop where
  evaluates : ∃ store, Eval.expr session.context e session.store = .ok evaluated store
  numeric : value.isNumeric = evaluated.value.isNumeric
  unbound : after.scopes.bindingAt? (session.scopes.slotOf name) = none ↔
    evaluated.value.isNumeric = false
  dimension : ∀ b, after.scopes.bindingAt? (session.scopes.slotOf name) = some b →
    b.dimension = previous.dimension ∨ b.dimension = .dimensionless
  downgraded : ∀ q, evaluated.downgrade? previous = some q →
    after.scopes.bindingAt? (session.scopes.slotOf name) = some (.plain q.si)
  announced : session.Announces name e (if (evaluated.downgrade? previous).isSome then 1 else 0)

/-- The log after an assignment whose value could be evaluated. -/
theorem log_assign (session : Session Heap Pointer) (name : String) {e : Expr}
    {scope : Scope Pointer} {outer : List (Scope Pointer)}
    (hlevels : session.scopes.levels = scope :: outer) {evaluated : Evaluated Pointer}
    {store : Store Heap} (hresult : Eval.expr session.context e session.store = .ok evaluated store) :
    (final (assign name e session)).store.log =
      store.log.complainAll session.source
        ((evaluated.settle name ((scope.get? name).bind (·.unit))).2.map (⟨·, e.span⟩)) := by
  rw [assign_eq session name e hlevels, hresult]
  simp only
  rw [final_discard]
  generalize evaluated.settle name ((scope.get? name).bind (·.unit)) = settled
  rcases frame_keep name settled.1 (session.noted store e.span settled.2) with
    ⟨_, heq⟩ | ⟨_, _, _, _, heq⟩
  · rw [heq]
    rfl
  · rw [heq]
    rfl

/-- An assignment warns once about a change of dimension if there is one, and
never else. -/
theorem announces_assign {session : Session Heap Pointer} {name : String} {e : Expr}
    {scope : Scope Pointer} {outer : List (Scope Pointer)}
    (hlevels : session.scopes.levels = scope :: outer) {previous : Binding}
    (hprevious : (scope.get? name).bind (·.unit) = some previous) {evaluated : Evaluated Pointer}
    {store : Store Heap} (hresult : Eval.expr session.context e session.store = .ok evaluated store) :
    session.Announces name e (if (evaluated.downgrade? previous).isSome then 1 else 0) := by
  obtain ⟨complaints, hother, ⟨evaluated', pool, hok⟩ | ⟨fault, pool, herror⟩⟩ :=
    Eval.indifferent_expr (π := Heap) session.context e session.store.pool
  · obtain rfl : evaluated' = evaluated := by
      have hsame := (hok session.store.log).symm.trans hresult
      exact (EStateM.Result.ok.inj hsame).1
    refine ⟨complaints ++ (evaluated'.settle name (some previous)).2.map (⟨·, e.span⟩), ?_, ?_⟩
    · intro log
      rw [log_assign (session.logging log) name hlevels (hok log), hprevious, Diagnostics.complainAll_append]
      rfl
    · have hnone : complaints.countP (fun c => c.problem.code = .dimensionDowngrade) = 0 :=
        List.countP_eq_zero.2 fun c hc hcode =>
          hother c hc (Problem.isDowngrade_of_code (of_decide_eq_true hcode))
      rw [List.countP_append, hnone, Nat.zero_add]
      cases hdowngrade : evaluated'.downgrade? previous with
      | some q =>
        rw [Evaluated.settle_of_downgrade hdowngrade]
        rfl
      | none =>
        rw [(Evaluated.settle_of_no_downgrade hdowngrade name).1]
        rfl
  · exact absurd ((herror session.store.log).symm.trans hresult) nofun

/-- A successful assignment to a name with a binding. -/
theorem reassigned_assign {session after : Session Heap Pointer} (hproper : session.Proper)
    {name : String} {e : Expr} {previous : Binding}
    {value : Value Pointer}
    (hprevious : session.scopes.bindingAt? (session.scopes.slotOf name) = some previous)
    (h : assign name e session = .ok value after) :
    ∃ evaluated, session.Reassigned name e previous evaluated value after := by
  rcases assign_spec session hproper.sound name e with
    ⟨_, _, _, heq⟩ | ⟨evaluated, store, scope, outer, hlevels, hresult, ⟨_, heq, _⟩ | ⟨pool, heq, _⟩⟩
  · rw [heq] at h
    cases h
  · rw [heq] at h
    cases h
  · rw [heq] at h
    cases h
    have hstack : session.scopes = ⟨scope :: outer⟩ := by rw [← hlevels]
    have hlawful : evaluated.Lawful := Eval.lawful_expr hproper.wellFormed hresult
    rw [hstack, Scopes.bindingAt?_slotOf] at hprevious
    have hstored (held : Variable Pointer) :
        Scopes.bindingAt? ⟨scope.insert name held :: outer⟩ (session.scopes.slotOf name) =
          held.unit := by
      rw [hstack, Scopes.bindingAt?_insert, if_pos rfl]
    refine ⟨evaluated, ⟨store, hresult⟩, Evaluated.isNumeric_settle hlawful name _, ?_, ?_, ?_,
      announces_assign hlevels hprevious hresult⟩
    · rw [hstored, hprevious]
      exact Evaluated.settle_unit_eq_none_iff hlawful name previous
    · intro b hb
      rw [hstored, hprevious] at hb
      cases hdowngrade : evaluated.downgrade? previous with
      | some q =>
        rw [Evaluated.settle_of_downgrade hdowngrade] at hb
        cases hb
        exact .inr rfl
      | none => exact .inl ((Evaluated.settle_of_no_downgrade hdowngrade name).2 b hb)
    · intro q hq
      rw [hstored, hprevious, Evaluated.settle_of_downgrade hq]

/-- A statement that assigns is counted and then assigns. -/
theorem exec_assign_eq_ok {session after : Session Heap Pointer} {target : Name} {e : Expr}
    {span : Span} (h : exec (.assign target e span) session = .ok () after) :
    ∃ value, assign target.text e session.ticked = .ok value after := by
  unfold exec at h
  rw [tick_bind] at h
  split at h
  · cases h
  · rw [bind_eq] at h
    cases hresult : assign target.text e session.ticked with
    | ok value after' =>
      rw [hresult] at h
      cases h
      exact ⟨value, rfl⟩
    | error fault stopped =>
      rw [hresult] at h
      cases h

/-! ## Slots without a dimension -/

/-- The variable in the slot is bound without a dimension. -/
def Dimensionless (slot : Slot) (session : Session Heap Pointer) : Prop :=
  ∃ b, session.scopes.bindingAt? slot = some b ∧ b.dimension = .dimensionless

/-- The call assigns something that is not a number to the slot, or closes its
scope.  A program does if one of its statements does when it is reached. -/
inductive Clears (slot : Slot) : Session Heap Pointer → Call → Prop
  | assigns {session after : Session Heap Pointer} {e : Expr} {value : Value Pointer}
      (hscope : session.scopes.Innermost slot)
      (hassign : assign slot.name e session = .ok value after) (hvalue : value.isNumeric = false) :
      Clears slot session (.assign slot.name e)
  | executes {session after : Session Heap Pointer} {target : Name} {e : Expr} {span : Span}
      {value : Value Pointer} (hname : target.text = slot.name)
      (hscope : session.scopes.Innermost slot)
      (hexec : exec (.assign target e span) session = .ok () after)
      (hassign : assign target.text e session.ticked = .ok value after)
      (hvalue : value.isNumeric = false) : Clears slot session (.exec (.assign target e span))
  | runs {session reached : Session Heap Pointer} {program : Program} {first later : List Stmt}
      {statement : Stmt} (hstatements : program.statements = first ++ statement :: later)
      (hfirst : execAll first session = .ok () reached)
      (hclears : Clears slot reached (.exec statement)) : Clears slot session (.execProgram program)
  | closes {session : Session Heap Pointer} (hscope : session.scopes.Innermost slot)
      (hinner : slot.scope ≠ 0) : Clears slot session .closeScope

/-- An assignment that does not clear a slot without a dimension leaves it
without one. -/
theorem dimensionless_assign {session : Session Heap Pointer} (hproper : session.Proper)
    {slot : Slot} (name : String) (e : Expr)
    (hclear : ∀ value after, slot.name = name → session.scopes.Innermost slot →
      assign name e session = .ok value after → value.isNumeric = true)
    (h : session.Dimensionless slot) : (final (assign name e session)).Dimensionless slot := by
  rcases bindingAt?_assign hproper.sound name e slot with hsame | ⟨rfl, hinner, value, after, heq⟩
  · rw [Dimensionless, hsame]
    exact h
  · obtain ⟨previous, hprevious, hdimension⟩ := h
    obtain ⟨evaluated, hreassigned⟩ := reassigned_assign hproper hprevious heq
    have hnumeric := hclear value after rfl hinner heq
    rw [heq]
    cases hbound : after.scopes.bindingAt? (session.scopes.slotOf name) with
    | none =>
      have hother := hreassigned.unbound.1 hbound
      rw [← hreassigned.numeric, hnumeric] at hother
      cases hother
    | some b =>
      refine ⟨b, hbound, ?_⟩
      rcases hreassigned.dimension b hbound with hsame | hnone
      · exact hsame.trans hdimension
      · exact hnone

/-- A statement that does not clear a slot without a dimension leaves it
without one. -/
theorem dimensionless_exec {session : Session Heap Pointer} (hproper : session.Proper) {slot : Slot}
    (statement : Stmt) (hclear : ¬Clears slot session (.exec statement))
    (h : session.Dimensionless slot) : (final (exec statement session)).Dimensionless slot := by
  by_cases hassigns : statement.Assigns slot.name ∧ session.scopes.Innermost slot
  · obtain ⟨hname, hinner⟩ := hassigns
    cases statement with
    | assign target value span =>
      cases hresult : exec (.assign target value span) session with
      | error fault after =>
        have hscopes : after.scopes = session.scopes :=
          scopes_of_exec_error hproper.sound hresult
        obtain ⟨b, hbound, hdimension⟩ := h
        exact ⟨b, by rw [← hbound, ← hscopes]; rfl, hdimension⟩
      | ok _ after =>
        obtain ⟨assigned, heq⟩ := exec_assign_eq_ok hresult
        have hnumeric : assigned.isNumeric = true := by
          rw [← Bool.not_eq_false]
          exact fun hvalue => hclear (.executes hname hinner hresult heq hvalue)
        have hafter := dimensionless_assign hproper.ticked target.text value
          (fun other after' _ _ hother => by
            rw [heq] at hother
            cases hother
            exact hnumeric) h
        rw [heq] at hafter
        exact hafter
    | display value => exact hname.elim
    | block body span => exact hname.elim
  · rw [Dimensionless, bindingAt?_exec hproper.sound statement hassigns]
    exact h

/-- Statements none of which clears a slot without a dimension when it is
reached leave it without one. -/
theorem dimensionless_execAll {slot : Slot} {statements : List Stmt}
    {session : Session Heap Pointer} (hproper : session.Proper)
    (hclear : ∀ first statement later reached, statements = first ++ statement :: later →
      execAll first session = .ok () reached → ¬Clears slot reached (.exec statement))
    (h : session.Dimensionless slot) : (final (execAll statements session)).Dimensionless slot := by
  induction statements generalizing session with
  | nil =>
    rw [execAll]
    exact h
  | cons statement later ih =>
    have hfirst := dimensionless_exec hproper statement
      (hclear [] statement later session rfl (by rw [execAll]; rfl)) h
    have hproper' := hproper.exec statement
    rw [execAll, final_bind]
    cases hresult : exec statement session with
    | error fault stopped =>
      rw [hresult] at hfirst
      exact hfirst
    | ok _ next =>
      rw [hresult] at hfirst hproper'
      refine ih hproper' (fun first statement' later' reached hsplit hreached => ?_) hfirst
      refine hclear (statement :: first) statement' later' reached (by rw [hsplit]; rfl) ?_
      rw [execAll, bind_eq, hresult]
      exact hreached

/-- A call that does not clear a slot without a dimension leaves it without
one. -/
theorem dimensionless_perform {session : Session Heap Pointer} (hproper : session.Proper)
    {slot : Slot} (call : Call) (hclear : ¬Clears slot session call)
    (h : session.Dimensionless slot) : (session.perform call).Dimensionless slot := by
  unfold perform
  have hsame {after : Session Heap Pointer}
      (hslot : after.scopes.bindingAt? slot = session.scopes.bindingAt? slot) :
      after.Dimensionless slot := by
    rw [Dimensionless, hslot]
    exact h
  cases call with
  | exec statement => exact dimensionless_exec hproper statement hclear h
  | execProgram program =>
    refine dimensionless_execAll hproper ?_ h
    intro first statement later reached hsplit hreached hclears
    exact hclear (.runs hsplit hreached hclears)
  | assign name value =>
    rw [Call.run, final_discard]
    refine dimensionless_assign hproper name value ?_ h
    rintro assigned after rfl hinner heq
    rw [← Bool.not_eq_false]
    exact fun hvalue => hclear (.assigns hinner heq hvalue)
  | evaluate value =>
    refine hsame ?_
    rw [Call.run, evaluate, final_discard, final_discard, scopes_evaluating]
  | quantity value =>
    refine hsame ?_
    rw [Call.run, quantity, final_discard, final_discard, scopes_evaluating]
  | render value =>
    refine hsame ?_
    rw [Call.run, render, final_discard, scopes_evaluating]
  | measure unit =>
    refine hsame ?_
    rw [Call.run, measure, final_discard, scopes_evaluating]
  | openScope => exact hsame (Scopes.bindingAt?_openScope session.scopes slot)
  | closeScope =>
    refine hsame ?_
    rw [Call.run, (frame_closeScope session).scopes]
    refine Scopes.bindingAt?_closeScope fun hinner => ?_
    by_contra hscope
    exact hclear (.closes hinner hscope)

/-- Along calls that do not clear it, a slot without a dimension stays without
one. -/
theorem dimensionless_performAll {slot : Slot} {calls : List Call} {session : Session Heap Pointer}
    (hproper : session.Proper)
    (hclear : ∀ first call later, calls = first ++ call :: later →
      ¬Clears slot (session.performAll first) call)
    (h : session.Dimensionless slot) : (session.performAll calls).Dimensionless slot := by
  induction calls generalizing session with
  | nil => exact h
  | cons call later ih =>
    refine ih (hproper.performAll [call]) (fun first call' later' hsplit => ?_)
      (dimensionless_perform hproper call (hclear [] call later rfl) h)
    exact hclear (call :: first) call' later' (by rw [hsplit]; rfl)

/-- A block runs its body in a session that calls lead to: the block is
counted, and a scope is opened. -/
theorem exec_block {session : Session Heap Pointer} (hsound : session.Sound)
    (hroom : session.steps < session.limits.steps) (body : List Stmt) (span : Span) :
    exec (.block body span) session =
      thenAlways (execAll body) closeScope
        (session.performAll [.exec (.block [] span), .openScope]) := by
  have hblock (statements : List Stmt) : exec (.block statements span) session =
      thenAlways (execAll statements) closeScope
        { session.ticked with scopes := session.scopes.openScope } := by
    unfold exec
    exact (tick_bind _ session).trans (if_neg (by omega))
  have hempty : exec (.block [] span) session = .ok () session.ticked := by
    have hopened := hsound.opened
    rw [hblock, execAll]
    obtain ⟨source, limits, registry, ⟨levels⟩, store, steps, output, dropped⟩ := session
    cases levels with
    | nil => exact absurd rfl hopened
    | cons scope outer => rfl
  have hcounted : session.performAll [.exec (.block [] span), .openScope] =
      { session.ticked with scopes := session.scopes.openScope } := by
    change final (openScope (final (exec (.block [] span) session))) = _
    rw [hempty]
    rfl
  rw [hblock, hcounted]

/-- Changes of dimension are one-way and announced.  In every session that calls
lead to, an assignment that succeeds takes the binding of its name exactly if
what it assigns is not a number; otherwise the variable keeps its dimension or
has none from then on.  It warns once about a change of dimension if a quantity
that carries a unit of another dimension is assigned, and then the variable is
a plain number; it never warns about one else.  So a slot without a dimension
has none after any further calls, as long as none assigns something that is not
a number to it or closes its scope.  A statement that does not assign to the
name in that scope leaves the binding there.  And a block runs its body in a
session of the same kind, so all this is true inside blocks too. -/
theorem dimension_changes_one_way (source : Source) (limits : Limits) (registry : Registry)
    (calls : List Call) :
    let session : Session Heap Pointer :=
      (start source limits registry Heap.empty).performAll calls
    (∀ name e previous value after,
      session.scopes.bindingAt? (session.scopes.slotOf name) = some previous →
      assign name e session = .ok value after →
        ∃ evaluated, session.Reassigned name e previous evaluated value after) ∧
    (∀ target e span previous after,
      session.scopes.bindingAt? (session.scopes.slotOf target.text) = some previous →
      exec (.assign target e span) session = .ok () after →
        ∃ evaluated value,
          session.ticked.Reassigned target.text e previous evaluated value after) ∧
    (∀ slot later, session.Dimensionless slot →
      (∀ first call rest, later = first ++ call :: rest →
        ¬Clears slot (session.performAll first) call) →
      (session.performAll later).Dimensionless slot) ∧
    (∀ slot statement, ¬(statement.Assigns slot.name ∧ session.scopes.Innermost slot) →
      (final (exec statement session)).scopes.bindingAt? slot = session.scopes.bindingAt? slot) ∧
    (∀ body span, session.steps < session.limits.steps →
      exec (.block body span) session =
        thenAlways (execAll body) closeScope
          (session.performAll [.exec (.block [] span), .openScope])) := by
  intro session
  have hproper : session.Proper := (proper_start source limits registry).performAll calls
  refine ⟨?_, ?_, ?_, ?_, ?_⟩
  · intro name e previous value after hprevious h
    exact reassigned_assign hproper hprevious h
  · intro target e span previous after hprevious h
    obtain ⟨value, hassign⟩ := exec_assign_eq_ok h
    obtain ⟨evaluated, hreassigned⟩ := reassigned_assign hproper.ticked hprevious hassign
    exact ⟨evaluated, value, hreassigned⟩
  · intro slot later h hclear
    exact dimensionless_performAll hproper hclear h
  · intro slot statement h
    exact bindingAt?_exec hproper.sound statement h
  · intro body span hroom
    exact exec_block hproper.sound hroom body span

end Session

end UnitScript
