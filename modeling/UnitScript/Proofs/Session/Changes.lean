import UnitScript.Proofs.Session.Frames

/-!
# Changes that operations do not notice

A session holds more than evaluation and assignment look at: the count of its
statements, the limits, and what was displayed.  A change of these is not
noticed, and it can as well be made afterwards.

* `Aside` are the changes that leave the scopes, the store and what expressions are
  evaluated in.
* `Ignores change m` says that `m` does the same after the change.  It holds for every
  operation that statements are made of but the counting and the displaying:
  `ignores_assign`, `ignores_render` and `ignores_closeScope`.
-/

namespace UnitScript.Session

variable {π ρ α β : Type} {change : Session π ρ → Session π ρ}

/-- A result with its session changed. -/
def onSession (change : Session π ρ → Session π ρ) :
    EStateM.Result Fault (Session π ρ) α → EStateM.Result Fault (Session π ρ) α
  | .ok value session => .ok value (change session)
  | .error fault session => .error fault (change session)

@[simp] theorem final_onSession (change : Session π ρ → Session π ρ)
    (result : EStateM.Result Fault (Session π ρ) α) :
    final (onSession change result) = change (final result) := by
  cases result <;> rfl

/-- The change is made aside of evaluation: what is evaluated in and what is stored stays,
and other scopes and another store can be set before or after it. -/
structure Aside (change : Session π ρ → Session π ρ) : Prop where
  context : ∀ session, (change session).context = session.context
  store : ∀ session, (change session).store = session.store
  setStore : ∀ session store,
    change { session with store := store } = { change session with store := store }
  setScopes : ∀ session scopes,
    change { session with scopes := scopes } = { change session with scopes := scopes }

theorem Aside.scopes (h : Aside change) (session : Session π ρ) :
    (change session).scopes = session.scopes :=
  congrArg Context.scopes (h.context session)

/-- The operation does the same after the change. -/
def Ignores (change : Session π ρ → Session π ρ) (m : Run π ρ α) : Prop :=
  ∀ session, m (change session) = onSession change (m session)

theorem Ignores.bind {m : Run π ρ α} {next : α → Run π ρ β} (hm : Ignores change m)
    (hnext : ∀ value, Ignores change (next value)) : Ignores change (m >>= next) := by
  intro session
  rw [bind_eq, bind_eq, hm]
  cases m session with
  | ok value session' => exact hnext value session'
  | error fault session' => rfl

/-- What is done in any case is done after the change, if it ignores what the body makes
of it. -/
theorem onSession_thenAlways {body close : Run π ρ Unit} {session : Session π ρ}
    {change' : Session π ρ → Session π ρ}
    (hbody : body (change session) = onSession change' (body session))
    (hclose : Ignores change' close) :
    thenAlways body close (change session) = onSession change' (thenAlways body close session) := by
  unfold thenAlways
  rw [hbody]
  cases body session with
  | ok _ session' => exact hclose session'
  | error fault session' =>
    simp only [onSession, hclose session']
    cases close session' <;> rfl

theorem ignores_pure (value : α) : Ignores change (pure value : Run π ρ α) := fun _ => rfl

theorem ignores_ofExcept {ε : Type} (fault : ε → Fault) (result : Except ε α) :
    Ignores change (ofExcept fault result : Run π ρ α) := by
  intro session
  cases result <;> rfl

section Aside

variable (h : Aside change)

include h

theorem ignores_current {next : Scope ρ → Run π ρ α} (hnext : ∀ scope, Ignores change (next scope)) :
    Ignores change (do next (← ofExcept .scope (← get).scopes.current)) := by
  intro session
  have hcurrent : Ignores change (ofExcept .scope session.scopes.current >>= next) :=
    (ignores_ofExcept .scope session.scopes.current).bind hnext
  show (ofExcept .scope (change session).scopes.current >>= next) (change session) = _
  rw [h.scopes]
  exact hcurrent session

theorem ignores_evaluating (eval : Context ρ → Eval π α) : Ignores change (evaluating eval) := by
  intro session
  unfold evaluating
  rw [h.context, h.store]
  cases eval session.context session.store with
  | ok value store => exact congrArg (EStateM.Result.ok value) (h.setStore session store).symm
  | error fault store =>
    exact congrArg (EStateM.Result.error fault) (h.setStore session store).symm

theorem ignores_declare (name : String) (held : Variable ρ) :
    Ignores change (declare name held : Run π ρ _) := by
  intro session
  unfold declare
  rw [h.scopes]
  cases session.scopes.declare name held with
  | ok result =>
    exact congrArg (EStateM.Result.ok result.1) (h.setScopes session result.2).symm
  | error error => rfl

theorem ignores_changePool (changed : π → Except Heap.Error π) :
    Ignores change (changePool changed : Run π ρ Unit) := by
  intro session
  unfold changePool
  rw [h.store]
  cases changed session.store.pool with
  | ok pool =>
    have hstored := h.setStore session { session.store with pool := pool }
    exact congrArg (EStateM.Result.ok ()) hstored.symm
  | error error => rfl

variable [StringPool π ρ]

theorem ignores_retain (value : Value ρ) : Ignores change (retain value : Run π ρ Unit) := by
  cases value with
  | pointer r => exact ignores_changePool h _
  | _ => exact ignores_pure ()

theorem ignores_release (value : Value ρ) : Ignores change (release value : Run π ρ Unit) := by
  cases value with
  | pointer r => exact ignores_changePool h _
  | _ => exact ignores_pure ()

theorem ignores_releaseAll (closed : List (Variable ρ)) :
    Ignores change (releaseAll closed : Run π ρ Unit) := by
  induction closed with
  | nil => exact ignores_pure ()
  | cons held later ih => exact (ignores_release h held.value).bind fun _ => ih

theorem ignores_closeScope : Ignores change (closeScope : Run π ρ Unit) := by
  intro session
  unfold closeScope
  rw [h.scopes]
  rcases session.scopes.closeScope with ⟨_ | closed, scopes⟩
  · rfl
  · simp only
    rw [← h.setScopes]
    exact ignores_releaseAll h closed.values { session with scopes := scopes }

theorem ignores_keep (name : String) (held : Variable ρ) :
    Ignores change (keep name held : Run π ρ Unit) := by
  refine (ignores_retain h held.value).bind fun _ => ?_
  refine (ignores_declare h name held).bind fun replaced => ?_
  cases replaced with
  | none => exact ignores_pure ()
  | some replaced => exact ignores_release h replaced.value

variable [DecidableEq ρ]

theorem ignores_assign (name : String) (e : Expr) :
    Ignores change (assign name e : Run π ρ (Value ρ)) := by
  refine (ignores_evaluating h _).bind fun evaluated => ignores_current h fun scope => ?_
  refine (ignores_evaluating h _).bind fun _ => ?_
  exact (ignores_keep h name _).bind fun _ => ignores_pure _

variable [ToString ρ]

theorem ignores_render (e : Expr) : Ignores change (render e : Run π ρ String) :=
  ignores_evaluating h _

end Aside

end UnitScript.Session
