import UnitScript.Proofs.Session.Clock
import UnitScript.Proofs.Session.References
import UnitScript.Proofs.Session.UnitErrors

/-!
# Runs that stop at the step limit

A run that stops at its limit has executed as many statements as the limit
allows, in the order in which they stand and with those inside blocks counted,
and nothing of the others.  So it is the run of a shorter program, and what it
displayed and logged is where every longer run begins.

* `Stmt.size` and `Stmt.total` count statements at any depth, `Stmt.first` is
  the program that is left when only the first ones are kept.
* `Paced` says how far a run gets: `paced_execAll` compares it with the run of
  the first statements only.
* `Precedes` is what the display and the log of a later session go on from;
  `precedes_first` relates the first statements to all of them.
-/

namespace UnitScript

/-! ## The first statements of a program -/

namespace Stmt

mutual

/-- How many statements a statement counts for: itself and those inside it, at
any depth. -/
def size : Stmt → Nat
  | .assign .. => 1
  | .display _ => 1
  | .block body _ => total body + 1

/-- How many statements there are, at any depth. -/
def total : List Stmt → Nat
  | [] => 0
  | statement :: later => statement.size + total later

end

mutual

/-- The statement with only the first `count` statements inside it. -/
def cut (count : Nat) : Stmt → Stmt
  | .assign target value span => .assign target value span
  | .display value => .display value
  | .block body span => .block (first count body) span

/-- The first `count` statements in the order of their execution, those inside
blocks counted. -/
def first : Nat → List Stmt → List Stmt
  | _, [] => []
  | 0, _ :: _ => []
  | count + 1, statement :: later =>
      statement.cut count :: first (count + 1 - statement.size) later

end

theorem first_zero (statements : List Stmt) : first 0 statements = [] := by
  cases statements <;> rfl

mutual

/-- Nothing is cut off from a statement that is small enough. -/
theorem cut_of_size_le {statement : Stmt} {count : Nat} (h : statement.size ≤ count + 1) :
    statement.cut count = statement := by
  cases statement with
  | assign target value span => rfl
  | display value => rfl
  | block body span =>
    rw [size] at h
    rw [cut, first_of_total_le (by omega)]

/-- The first statements are all of them when there are no more. -/
theorem first_of_total_le {statements : List Stmt} {count : Nat} (h : total statements ≤ count) :
    first count statements = statements := by
  cases statements with
  | nil => rfl
  | cons statement later =>
    rw [total] at h
    cases count with
    | zero =>
      have hpositive : 0 < statement.size := by cases statement <;> simp [size]
      omega
    | succ count =>
      rw [first, cut_of_size_le (by omega), first_of_total_le (by omega)]

end

end Stmt

namespace Session

/-! ## How far a run gets -/

/-- A run of `size` statements: it executes them all, or stops for another
reason before the limit, or stops at the limit where `begun` ends. -/
inductive Paced (session : Session Heap Pointer) (size : Nat)
    (begun : EStateM.Result Fault (Session Heap Pointer) Unit) :
    EStateM.Result Fault (Session Heap Pointer) Unit → Prop
  | done {reached : Session Heap Pointer} (hsteps : reached.steps = session.steps + size)
      (hroom : reached.steps ≤ session.limits.steps) : Paced session size begun (.ok () reached)
  | faulted {fault : Fault} {stopped : Session Heap Pointer}
      (hfault : ∀ limit, fault ≠ .stepLimit limit) (hroom : stopped.steps ≤ session.limits.steps) :
      Paced session size begun (.error fault stopped)
  | exhausted {reached : Session Heap Pointer} (hbegun : begun = .ok () reached)
      (hsteps : reached.steps = session.limits.steps) :
      Paced session size begun (.error (.stepLimit session.limits.steps) reached.ticked)

/-- A single statement that is not a block. -/
theorem paced_untimed {m : Run Heap Pointer Unit} (hm : Untimed m) {session : Session Heap Pointer}
    (hroom : session.steps < session.limits.steps)
    (begun : EStateM.Result Fault (Session Heap Pointer) Unit) :
    Paced session 1 begun ((tick >>= fun _ => m) session) := by
  have hsteps := hm.steps session.ticked
  have hunlimited := hm.unlimited session.ticked
  change _ = session.steps + 1 at hsteps
  rw [tick_bind, if_neg (by omega)]
  cases hresult : m session.ticked with
  | ok _ reached =>
    rw [hresult] at hsteps
    exact .done hsteps (by rw [show reached.steps = session.steps + 1 from hsteps]; omega)
  | error fault stopped =>
    rw [hresult] at hsteps hunlimited
    refine .faulted ?_ (by rw [show stopped.steps = session.steps + 1 from hsteps]; omega)
    rintro limit rfl
    exact hunlimited ⟨limit, rfl⟩

/-- Closing a scope does not change how far its body got. -/
theorem Paced.thenAlways_closeScope {session : Session Heap Pointer} {size : Nat}
    {begun body : Run Heap Pointer Unit}
    (hsound : ∀ reached, begun session = .ok () reached → reached.Sound)
    (h : Paced session size (begun session) (body session)) :
    Paced session size (thenAlways begun closeScope session)
      (thenAlways body closeScope session) := by
  unfold thenAlways
  generalize body session = result at h ⊢
  cases h with
  | @done reached hsteps hroom =>
    have hclosed := untimed_closeScope.steps reached
    have hunlimited := untimed_closeScope.unlimited reached
    simp only
    cases hresult : closeScope reached with
    | ok _ closed =>
      rw [hresult] at hclosed
      change closed.steps = reached.steps at hclosed
      exact .done (by omega) (by omega)
    | error fault closed =>
      rw [hresult] at hclosed hunlimited
      change closed.steps = reached.steps at hclosed
      refine .faulted ?_ (by omega)
      rintro limit rfl
      exact hunlimited ⟨limit, rfl⟩
  | @faulted fault stopped hfault hroom =>
    have hclosed := untimed_closeScope.steps stopped
    simp only
    cases hresult : closeScope stopped with
    | ok _ closed =>
      rw [hresult] at hclosed
      exact .faulted hfault (by rw [show closed.steps = stopped.steps from hclosed]; exact hroom)
    | error _ closed =>
      rw [hresult] at hclosed
      exact .faulted hfault (by rw [show closed.steps = stopped.steps from hclosed]; exact hroom)
  | @exhausted reached hbegun hsteps =>
    -- the scope of the statement that was not executed is closed like that of the begun run
    obtain ⟨pool, hclosed, _⟩ := closeScope_spec reached (hsound reached hbegun)
    have hticked : closeScope reached.ticked = onSession _ (closeScope reached) :=
      untimed_closeScope.commutes (reached.steps + 1) reached.limits.steps reached
    simp only [hbegun, hticked, hclosed]
    exact .exhausted rfl hsteps

/-- A statement at the limit is counted and not executed. -/
theorem exec_at_limit (statement : Stmt) (session : Session Heap Pointer)
    (h : session.steps = session.limits.steps) :
    exec statement session = .error (.stepLimit session.limits.steps) session.ticked := by
  cases statement <;> exact (tick_bind _ session).trans (if_pos (by omega))

mutual

/-- How far a statement gets. -/
theorem paced_exec (statement : Stmt) {session : Session Heap Pointer} (hsound : session.Sound)
    {count : Nat} (hcount : session.steps + (count + 1) = session.limits.steps) :
    Paced session statement.size (exec (statement.cut count) session) (exec statement session) := by
  have hroom : session.steps < session.limits.steps := by omega
  cases statement with
  | assign target value span =>
    unfold exec
    exact paced_untimed ((untimed_assign target.text value).bind fun _ => untimed_pure ()) hroom _
  | display value =>
    unfold exec
    exact paced_untimed ((untimed_render value).bind fun line => untimed_emit line) hroom _
  | block body span =>
    let opened : Session Heap Pointer :=
      { session.ticked with scopes := session.scopes.openScope }
    have hopened : opened.Sound := ⟨hsound.accounts, nofun⟩
    have heq (statements : List Stmt) : exec (.block statements span) session =
        thenAlways (execAll statements) closeScope opened := by
      unfold exec
      exact (tick_bind _ session).trans (if_neg (by omega))
    have hcount' : opened.steps + count = opened.limits.steps := by
      change session.steps + 1 + count = session.limits.steps
      omega
    have hbody : Paced opened (Stmt.total body) _ _ :=
      (paced_execAll body hopened hcount').thenAlways_closeScope fun reached hreached => by
        have hsafe := safe_execAll (Stmt.first count body) hopened
        rw [hreached] at hsafe
        exact hsafe.1
    rw [Stmt.cut, heq, heq, Stmt.size]
    generalize thenAlways (execAll body) closeScope opened = result at hbody ⊢
    cases hbody with
    | done hsteps hroom =>
      change _ = session.steps + 1 + _ at hsteps
      exact .done (by omega) hroom
    | faulted hfault hroom => exact .faulted hfault hroom
    | exhausted hbegun hsteps => exact .exhausted hbegun hsteps

/-- How far statements get. -/
theorem paced_execAll (statements : List Stmt) {session : Session Heap Pointer}
    (hsound : session.Sound) {count : Nat}
    (hcount : session.steps + count = session.limits.steps) :
    Paced session (Stmt.total statements) (execAll (Stmt.first count statements) session)
      (execAll statements session) := by
  cases statements with
  | nil =>
    unfold execAll
    exact .done rfl (by omega)
  | cons statement later =>
    cases count with
    | zero =>
      have hstopped := exec_at_limit statement session hcount
      rw [Stmt.first_zero]
      unfold execAll
      rw [bind_eq, hstopped]
      exact .exhausted rfl hcount
    | succ count =>
      have hfirst := paced_exec statement hsound hcount
      have hsafe := safe_exec statement hsound
      have hlimit := limit_stepRelation.exec statement session
      have hcut := @Stmt.cut_of_size_le statement count
      rw [Stmt.first, Stmt.total, execAll, execAll, bind_eq, bind_eq]
      generalize hresult : exec statement session = result at hfirst hsafe hlimit ⊢
      cases hfirst with
      | @done reached hsteps hroom =>
        change reached.limits.steps = session.limits.steps at hlimit
        have hcount' : reached.steps + (count + 1 - statement.size) = reached.limits.steps := by
          omega
        rw [hcut (by omega), hresult]
        have hlater := paced_execAll later hsafe.1 hcount'
        simp only
        generalize execAll later reached = result' at hlater ⊢
        cases hlater with
        | done hsteps' hroom' => exact .done (by omega) (by omega)
        | faulted hfault hroom' => exact .faulted hfault (by omega)
        | exhausted hbegun hsteps' =>
          rw [hlimit] at hsteps' ⊢
          exact .exhausted hbegun hsteps'
      | faulted hfault hroom => exact .faulted hfault hroom
      | @exhausted reached hbegun hsteps =>
        -- the limit was reached inside the statement, so nothing after it is begun
        have hlong : ¬statement.size ≤ count + 1 := by
          intro hle
          rw [hcut hle, hresult] at hbegun
          cases hbegun
        rw [hbegun, show count + 1 - statement.size = 0 by omega, Stmt.first_zero]
        exact .exhausted rfl hsteps

end

/-! ## What longer runs go on from -/

variable {π ρ α : Type}

/-- The later session has the same source, and its display and its log go on
from those of the earlier one. -/
structure Precedes (before after : Session π ρ) : Prop where
  source : after.source = before.source
  output : before.output.toList <+: after.output.toList
  log : Diagnostics.Extends before.source before.store.log after.store.log

namespace Precedes

variable {before middle after : Session π ρ}

theorem refl (session : Session π ρ) : session.Precedes session :=
  ⟨rfl, List.prefix_rfl, .refl _ _⟩

theorem trans (h : before.Precedes middle) (h' : middle.Precedes after) :
    before.Precedes after := by
  have hlog := h'.log
  rw [h.source] at hlog
  exact ⟨h'.source.trans h.source, h.output.trans h'.output, h.log.trans hlog⟩

/-- What displays nothing goes on from a session if its log does. -/
theorem of_reports {session : Session π ρ} {errors : Nat}
    {result : EStateM.Result Fault (Session π ρ) α} (h : Reports session errors result)
    (houtput : (final result).output = session.output) : session.Precedes (final result) := by
  obtain ⟨_, _, _, hgains⟩ := h.gains
  refine ⟨?_, by simp only [houtput, List.prefix_rfl], hgains.toExtends⟩
  cases result with
  | ok _ _ => exact h.1
  | error _ _ => exact h.1

end Precedes

theorem output_evaluating (eval : Context ρ → Eval π α) (session : Session π ρ) :
    (final (evaluating eval session)).output = session.output := by
  obtain ⟨store, heq⟩ := frame_evaluating eval session
  rw [heq]

theorem precedes_emit (line : String) (session : Session π ρ) :
    session.Precedes (final (emit line session)) := by
  unfold emit
  split
  · refine ⟨rfl, ?_, .refl _ _⟩
    rw [show (final _).output = session.output.push line from rfl, Array.toList_push]
    exact List.prefix_append _ _
  · exact ⟨rfl, List.prefix_rfl, .refl _ _⟩

variable [StringPool π ρ]

/-- A scope that is closed leaves the display and the log. -/
theorem closeScope_precedes {session closed later : Session π ρ}
    (hclosed : closeScope session = .ok () closed) (h : session.Precedes later) :
    closed.Precedes later := by
  obtain ⟨pool, heq⟩ := frame_closeScope session
  rw [hclosed] at heq
  cases heq
  exact ⟨h.source, h.output, h.log⟩

variable [DecidableEq ρ]

theorem output_assign (name : String) (e : Expr) (session : Session π ρ) :
    (final (assign name e session)).output = session.output := by
  obtain ⟨scopes, store, heq⟩ := frame_assign name e session
  rw [heq]

variable [ToString ρ]

/-- Whatever statements do, they go on from the session they start with. -/
theorem precedes_stepRelation : StepRelation (Precedes : Session π ρ → Session π ρ → Prop) where
  refl := .refl
  trans := .trans
  ticks _ := ⟨rfl, List.prefix_rfl, .refl _ _⟩
  assigns name e session _ :=
    .of_reports (reports_assign session name e) (output_assign name e session)
  renders e session _ :=
    .of_reports
      (reports_evaluating (fun ctx => Eval.render ctx e)
        (Eval.reports_render session.context e session.store))
      (output_evaluating _ session)
  emits := precedes_emit
  opens _ := ⟨rfl, List.prefix_rfl, .refl _ _⟩
  closes session := by
    obtain ⟨pool, heq⟩ := frame_closeScope session
    rw [heq]
    exact ⟨rfl, List.prefix_rfl, .refl _ _⟩

mutual

/-- A statement goes on from where its first statements lead. -/
theorem precedes_cut (statement : Stmt) (count : Nat) {session reached : Session π ρ}
    (h : exec (statement.cut count) session = .ok () reached) :
    reached.Precedes (final (exec statement session)) := by
  cases statement with
  | assign target value span =>
    rw [Stmt.cut] at h
    rw [h]
    exact .refl reached
  | display value =>
    rw [Stmt.cut] at h
    rw [h]
    exact .refl reached
  | block body span =>
    rw [Stmt.cut] at h
    unfold exec at h ⊢
    rw [tick_bind] at h ⊢
    split at h
    · cases h
    · next hroom =>
        let opened : Session π ρ := { session.ticked with scopes := session.scopes.openScope }
        change thenAlways (execAll (Stmt.first count body)) closeScope opened = _ at h
        rw [if_neg hroom]
        change reached.Precedes (final (thenAlways (execAll body) closeScope opened))
        rw [final_thenAlways]
        unfold thenAlways at h
        cases hbegun : execAll (Stmt.first count body) opened with
        | ok _ session' =>
          rw [hbegun] at h
          have hbody := closeScope_precedes h (precedes_first body count hbegun)
          exact hbody.trans (precedes_stepRelation.closes _)
        | error fault session' =>
          rw [hbegun] at h
          simp only at h
          split at h <;> cases h

/-- Statements go on from where the first of them lead. -/
theorem precedes_first (statements : List Stmt) (count : Nat) {session reached : Session π ρ}
    (h : execAll (Stmt.first count statements) session = .ok () reached) :
    reached.Precedes (final (execAll statements session)) := by
  cases statements with
  | nil =>
    rw [Stmt.first] at h
    rw [h]
    exact .refl reached
  | cons statement later =>
    cases count with
    | zero =>
      rw [Stmt.first_zero, execAll] at h
      cases h
      exact precedes_stepRelation.execAll _ session
    | succ count =>
      rw [Stmt.first, execAll, bind_eq] at h
      rw [execAll, final_bind]
      cases hfirst : exec (statement.cut count) session with
      | error fault session' =>
        rw [hfirst] at h
        cases h
      | ok _ session' =>
        rw [hfirst] at h
        by_cases hsize : statement.size ≤ count + 1
        · rw [Stmt.cut_of_size_le hsize] at hfirst
          rw [hfirst]
          exact precedes_first later _ h
        · rw [show count + 1 - statement.size = 0 by omega, Stmt.first_zero, execAll] at h
          cases h
          have hcut := precedes_cut statement count hfirst
          cases hresult : exec statement session with
          | ok _ session'' =>
            rw [hresult] at hcut
            exact hcut.trans (precedes_stepRelation.execAll later session'')
          | error _ session'' =>
            rw [hresult] at hcut
            exact hcut

end

end Session

end UnitScript
