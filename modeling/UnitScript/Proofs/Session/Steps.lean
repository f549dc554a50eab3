import UnitScript.Session.Basic

/-!
# The operations of a session as equations

What an operation does, written as a case distinction on what can stop it.
Everything here holds whatever the strings are kept in.

* `final` and `fault?` are the session and the fault that an operation leaves.
* `final_bind`, `final_thenAlways` and `fault?_thenAlways` follow them through a
  sequence.
* `tick_bind` and `assign_eq` say where a statement and an assignment stop.
-/

namespace UnitScript.Session

variable {π ρ α β : Type}

/-- The session that an operation leaves, whether it stopped or not. -/
def final : EStateM.Result Fault (Session π ρ) α → Session π ρ
  | .ok _ session => session
  | .error _ session => session

/-- The fault that an operation stopped with. -/
def fault? : EStateM.Result Fault (Session π ρ) α → Option Fault
  | .ok _ _ => none
  | .error fault _ => some fault

/-! ## Sequences -/

/-- A sequence stops with its first part, or does what its last part does. -/
theorem bind_eq (m : Run π ρ α) (next : α → Run π ρ β) (session : Session π ρ) :
    (m >>= next) session =
      match m session with
      | .ok value session' => next value session'
      | .error fault session' => .error fault session' := by
  change EStateM.bind m next session = _
  unfold EStateM.bind
  cases m session <;> rfl

/-- What a sequence leaves is what its last part leaves. -/
theorem final_bind (m : Run π ρ α) (next : α → Run π ρ β) (session : Session π ρ) :
    final ((m >>= next) session) =
      match m session with
      | .ok value session' => final (next value session')
      | .error _ session' => session' := by
  rw [bind_eq]
  cases m session <;> rfl

/-- What is done in any case is done to the session that the body leaves. -/
theorem final_thenAlways (body close : Run π ρ Unit) (session : Session π ρ) :
    final (thenAlways body close session) = final (close (final (body session))) := by
  unfold thenAlways
  cases body session with
  | ok _ session' => rfl
  | error _ session' =>
    simp only [final]
    cases close session' <;> rfl

/-- A fault of the body counts before one of what is done in any case. -/
theorem fault?_thenAlways (body close : Run π ρ Unit) (session : Session π ρ) :
    fault? (thenAlways body close session) =
      (fault? (body session)).or (fault? (close (final (body session)))) := by
  unfold thenAlways
  cases body session with
  | ok _ session' => rfl
  | error _ session' =>
    simp only [final]
    cases close session' <;> rfl

/-! ## Statements -/

/-- The session with one more statement counted. -/
def ticked (session : Session π ρ) : Session π ρ := { session with steps := session.steps + 1 }

/-- A statement is counted, and then it stops at the limit or goes on. -/
theorem tick_bind (next : Unit → Run π ρ α) (session : Session π ρ) :
    (tick >>= next) session =
      if session.limits.steps < session.steps + 1 then
        .error (.stepLimit session.limits.steps) session.ticked
      else next () session.ticked := by
  rw [bind_eq]
  by_cases hlimit : session.limits.steps < session.steps + 1
  · simp only [tick, if_pos hlimit]
    rfl
  · simp only [tick, if_neg hlimit]
    rfl

/-- The session after an evaluation that left `store`, with the problems of
what is written at `span` logged. -/
def noted (session : Session π ρ) (store : Store π) (span : Span) (problems : List Problem) :
    Session π ρ :=
  { session with
    store :=
      { store with log := store.log.complainAll session.source (problems.map (⟨·, span⟩)) } }

/-- An assignment evaluates, settles what to store, and stores it. -/
theorem assign_eq [StringPool π ρ] [DecidableEq ρ] (session : Session π ρ) (name : String)
    (e : Expr) {scope : Scope ρ} {outer : List (Scope ρ)}
    (hlevels : session.scopes.levels = scope :: outer) :
    assign name e session =
      match Eval.expr session.context e session.store with
      | .error fault store => .error fault { session with store := store }
      | .ok evaluated store =>
          let settled := evaluated.settle name ((scope.get? name).bind (·.unit))
          (do keep name settled.1; return settled.1.value)
            (session.noted store e.span settled.2) := by
  have hcurrent : session.scopes.current = .ok scope := by
    simp only [Scopes.current, hlevels]
  have hget (next : Session π ρ → Run π ρ (Value ρ)) (reached : Session π ρ) :
      (get >>= next) reached = next reached reached := rfl
  unfold assign
  rw [bind_eq, evaluating]
  cases Eval.expr session.context e session.store with
  | error fault store => rfl
  | ok evaluated store =>
    simp only [hget, hcurrent]
    rfl

end UnitScript.Session
