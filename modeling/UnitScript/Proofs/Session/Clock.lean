import UnitScript.Proofs.Session.Changes

/-!
# The clock of a session

A session counts its statements and has a limit for them.  Only the tick at the
start of a statement reads either, so everything else does the same whatever
they are, and a run that does not stop at its limit is the same under a longer
one.

* `timed` sets the count and the limit, `within` the limit alone.
* `Untimed` are the operations that do not read the clock; `untimed_assign`,
  `untimed_render` and `untimed_closeScope` are those that statements are made of.
* `execAll_within` is the result about a longer limit.
-/

namespace UnitScript

/-! ## Evaluation does not stop at the limit -/

namespace Eval

variable {π ρ α β : Type}

/-- The computation stops, if it does, for another reason than the limit. -/
def Unlimited (m : Eval π α) : Prop :=
  ∀ s limit stopped, m s ≠ .error (.stepLimit limit) stopped

theorem unlimited_pure (value : α) : Unlimited (pure value : Eval π α) := nofun

theorem Unlimited.bind {m : Eval π α} {next : α → Eval π β} (hm : Unlimited m)
    (hnext : ∀ value, Unlimited (next value)) : Unlimited (m >>= next) := by
  intro s limit stopped
  change EStateM.bind m next s ≠ _
  unfold EStateM.bind
  cases hresult : m s with
  | ok value s' => exact hnext value s' limit stopped
  | error fault s' =>
    have hfault := hm s limit s'
    rw [hresult] at hfault
    intro heq
    cases heq
    exact hfault rfl

theorem unlimited_ofExcept {ε : Type} (fault : ε → Fault)
    (hfault : ∀ error limit, fault error ≠ .stepLimit limit) (result : Except ε α) :
    Unlimited (ofExcept fault result : Eval π α) := by
  intro s limit stopped heq
  cases result with
  | ok value => cases heq
  | error error => exact hfault error limit (EStateM.Result.error.inj heq).1

theorem unlimited_complain (ctx : Context ρ) (complaints : List Complaint) :
    Unlimited (complain ctx complaints : Eval π Unit) := nofun

variable [StringPool π ρ]

theorem unlimited_intern (text : String) : Unlimited (intern text : Eval π ρ) := nofun

theorem unlimited_text (r : ρ) : Unlimited (Eval.text r : Eval π String) := by
  intro s limit stopped
  unfold Eval.text
  split <;> exact nofun

theorem unlimited_literal (value : Literal) : Unlimited (literal value : Eval π (Value ρ)) := by
  cases value with
  | string text => exact (unlimited_intern text).bind fun r => unlimited_pure _
  | _ => exact unlimited_pure _

variable [DecidableEq ρ]

theorem unlimited_binary (ctx : Context ρ) (op : BinaryOp) (exponent : Expr) (span : Span)
    (lhs rhs : Evaluated ρ) : Unlimited (binary ctx op exponent span lhs rhs : Eval π _) := by
  unfold binary
  split
  · refine (unlimited_text _).bind fun front => (unlimited_text _).bind fun back => ?_
    exact (unlimited_intern _).bind fun r => unlimited_pure _
  · refine (unlimited_ofExcept .value (fun _ _ => nofun) _).bind fun (result, problems) => ?_
    exact (unlimited_complain ctx _).bind fun _ => unlimited_pure _

theorem unlimited_expr (ctx : Context ρ) (e : Expr) :
    Unlimited (expr ctx e : Eval π (Evaluated ρ)) := by
  induction e with
  | literal value span => exact (unlimited_literal value).bind fun value => unlimited_pure _
  | identifier name span =>
    unfold expr
    split
    · exact unlimited_pure _
    · exact nofun
  | negate operand span ih =>
    exact ih.bind fun inner => unlimited_ofExcept .value (fun _ _ => nofun) _
  | binary op left right span ihl ihr =>
    exact ihl.bind fun lhs => ihr.bind fun rhs => unlimited_binary ctx op right span lhs rhs
  | cast value unit span ih =>
    refine (unlimited_complain ctx _).bind fun _ => ih.bind fun inner => ?_
    exact (unlimited_complain ctx _).bind fun _ => unlimited_pure _
  | paren inner span ih => exact ih

theorem unlimited_render [ToString ρ] (ctx : Context ρ) (e : Expr) :
    Unlimited (render ctx e : Eval π String) := by
  refine (unlimited_expr ctx e).bind fun evaluated => ?_
  cases evaluated.value with
  | pointer r => exact unlimited_text r
  | _ => cases ctx.label? e evaluated <;> exact unlimited_pure _

end Eval

namespace Session

variable {π ρ α β : Type}

/-! ## Operations that do not read the clock -/

/-- The session with another count of statements and another limit for them. -/
def timed (steps limit : Nat) (session : Session π ρ) : Session π ρ :=
  { session with steps := steps, limits := { session.limits with steps := limit } }

/-- The session with another limit. -/
def within (limit : Nat) (session : Session π ρ) : Session π ρ :=
  session.timed session.steps limit

/-- The clock is not looked at by evaluation. -/
theorem aside_timed (steps limit : Nat) : Aside (timed steps limit : Session π ρ → Session π ρ) :=
  ⟨fun _ => rfl, fun _ => rfl, fun _ _ => rfl, fun _ _ => rfl⟩

/-- The operation stopped at the limit. -/
def Exhausted (result : EStateM.Result Fault (Session π ρ) α) : Prop :=
  ∃ limit, fault? result = some (.stepLimit limit)

/-- The operation does the same whatever the clock says, and never stops at the
limit. -/
structure Untimed (m : Run π ρ α) : Prop where
  commutes : ∀ steps limit, Ignores (timed steps limit) m
  unlimited : ∀ session, ¬Exhausted (m session)

namespace Untimed

variable {m : Run π ρ α}

/-- What does not read the clock does not change it. -/
theorem final_eq (hm : Untimed m) (session : Session π ρ) :
    final (m session) = (final (m session)).timed session.steps session.limits.steps := by
  have hsame : m session = onSession (timed session.steps session.limits.steps) (m session) :=
    hm.commutes session.steps session.limits.steps session
  calc final (m session)
      = final (onSession (timed session.steps session.limits.steps) (m session)) :=
        congrArg final hsame
    _ = _ := final_onSession _ _

theorem steps (hm : Untimed m) (session : Session π ρ) :
    (final (m session)).steps = session.steps :=
  congrArg (fun reached => reached.steps) (hm.final_eq session)

theorem limit (hm : Untimed m) (session : Session π ρ) :
    (final (m session)).limits.steps = session.limits.steps :=
  congrArg (fun reached => reached.limits.steps) (hm.final_eq session)

theorem within (hm : Untimed m) (limit : Nat) : Ignores (within limit) m := by
  intro session
  have hsteps := hm.steps session
  rw [Session.within, hm.commutes]
  cases hresult : m session with
  | ok value session' =>
    rw [hresult] at hsteps
    change session'.steps = session.steps at hsteps
    simp only [onSession, Session.within, hsteps]
  | error fault session' =>
    rw [hresult] at hsteps
    change session'.steps = session.steps at hsteps
    simp only [onSession, Session.within, hsteps]

theorem bind (hm : Untimed m) {next : α → Run π ρ β} (hnext : ∀ value, Untimed (next value)) :
    Untimed (m >>= next) where
  commutes steps limit := (hm.commutes steps limit).bind fun value =>
    (hnext value).commutes steps limit
  unlimited session := by
    have hfirst := hm.unlimited session
    rw [bind_eq]
    cases hresult : m session with
    | ok value session' => exact (hnext value).unlimited session'
    | error fault session' =>
      rw [hresult] at hfirst
      exact hfirst

end Untimed

theorem untimed_pure (value : α) : Untimed (pure value : Run π ρ α) :=
  ⟨fun _ _ _ => rfl, nofun⟩

/-- A counted operation that does not stop at the limit does the same under a
longer one, if what is counted does. -/
theorem tick_bind_within {next : Run π ρ α} {session : Session π ρ} {longer : Nat}
    (hle : session.limits.steps ≤ longer)
    (hdone : ¬Exhausted ((tick >>= fun _ => next) session))
    (hnext : ¬Exhausted (next session.ticked) →
      next (session.ticked.within longer) = onSession (within longer) (next session.ticked)) :
    (tick >>= fun _ => next) (session.within longer) =
      onSession (within longer) ((tick >>= fun _ => next) session) := by
  rw [tick_bind] at hdone ⊢
  rw [tick_bind]
  split at hdone
  · exact absurd ⟨_, rfl⟩ hdone
  · next hroom =>
      have hroom' : ¬(session.within longer).limits.steps < (session.within longer).steps + 1 := by
        change ¬longer < session.steps + 1
        omega
      rw [if_neg hroom, if_neg hroom']
      exact hnext hdone

theorem untimed_ofExcept {ε : Type} (fault : ε → Fault)
    (hfault : ∀ error limit, fault error ≠ .stepLimit limit) (result : Except ε α) :
    Untimed (ofExcept fault result : Run π ρ α) where
  commutes _ _ := ignores_ofExcept fault result
  unlimited := by
    rintro session ⟨limit, heq⟩
    cases result with
    | ok value => cases heq
    | error error => exact hfault error limit (Option.some.inj heq)

/-- The innermost scope can be read without reading the clock. -/
theorem untimed_current {next : Scope ρ → Run π ρ α} (hnext : ∀ scope, Untimed (next scope)) :
    Untimed (do next (← ofExcept .scope (← get).scopes.current)) := by
  have hcurrent (scopes : Scopes ρ) : Untimed (ofExcept .scope scopes.current >>= next) :=
    (untimed_ofExcept .scope (fun _ _ => nofun) scopes.current).bind hnext
  exact ⟨fun steps limit => ignores_current (aside_timed steps limit) fun scope =>
      (hnext scope).commutes steps limit,
    fun session => (hcurrent session.scopes).unlimited session⟩

theorem untimed_evaluating {eval : Context ρ → Eval π α} (heval : ∀ ctx, (eval ctx).Unlimited) :
    Untimed (evaluating eval) where
  commutes steps limit := ignores_evaluating (aside_timed steps limit) eval
  unlimited := by
    rintro session ⟨limit, heq⟩
    unfold evaluating at heq
    cases hresult : eval session.context session.store with
    | ok value store =>
      rw [hresult] at heq
      cases heq
    | error fault store =>
      rw [hresult] at heq
      cases heq
      exact heval _ _ limit store hresult

theorem untimed_emit (line : String) : Untimed (emit line : Run π ρ Unit) where
  commutes steps limit session := by
    change (if session.output.size < session.limits.lines then _ else _) = _
    unfold emit
    split <;> rfl
  unlimited := by
    rintro session ⟨limit, heq⟩
    unfold emit at heq
    split at heq <;> cases heq

theorem untimed_declare (name : String) (held : Variable ρ) :
    Untimed (declare name held : Run π ρ _) where
  commutes steps limit := ignores_declare (aside_timed steps limit) name held
  unlimited := by
    rintro session ⟨limit, heq⟩
    unfold declare at heq
    split at heq <;> cases heq

theorem untimed_changePool (change : π → Except Heap.Error π) :
    Untimed (changePool change : Run π ρ Unit) where
  commutes steps limit := ignores_changePool (aside_timed steps limit) change
  unlimited := by
    rintro session ⟨limit, heq⟩
    unfold changePool at heq
    split at heq <;> cases heq

variable [StringPool π ρ]

theorem untimed_retain (value : Value ρ) : Untimed (retain value : Run π ρ Unit) := by
  cases value with
  | pointer r => exact untimed_changePool _
  | _ => exact untimed_pure ()

theorem untimed_release (value : Value ρ) : Untimed (release value : Run π ρ Unit) := by
  cases value with
  | pointer r => exact untimed_changePool _
  | _ => exact untimed_pure ()

theorem untimed_releaseAll (closed : List (Variable ρ)) :
    Untimed (releaseAll closed : Run π ρ Unit) := by
  induction closed with
  | nil => exact untimed_pure ()
  | cons held later ih => exact (untimed_release held.value).bind fun _ => ih

theorem untimed_closeScope : Untimed (closeScope : Run π ρ Unit) where
  commutes steps limit := ignores_closeScope (aside_timed steps limit)
  unlimited session := by
    unfold closeScope
    rcases session.scopes.closeScope with ⟨_ | closed, scopes⟩
    · exact nofun
    · exact (untimed_releaseAll closed.values).unlimited _

theorem untimed_keep (name : String) (held : Variable ρ) :
    Untimed (keep name held : Run π ρ Unit) := by
  refine (untimed_retain held.value).bind fun _ => (untimed_declare name held).bind fun replaced => ?_
  cases replaced with
  | none => exact untimed_pure ()
  | some replaced => exact untimed_release replaced.value

variable [DecidableEq ρ]

theorem untimed_assign (name : String) (e : Expr) : Untimed (assign name e : Run π ρ (Value ρ)) := by
  refine (untimed_evaluating fun ctx => Eval.unlimited_expr ctx e).bind fun evaluated => ?_
  refine untimed_current fun scope => ?_
  refine (untimed_evaluating fun ctx => Eval.unlimited_complain ctx _).bind fun _ => ?_
  exact (untimed_keep name _).bind fun _ => untimed_pure _

variable [ToString ρ]

theorem untimed_render (e : Expr) : Untimed (render e : Run π ρ String) :=
  untimed_evaluating fun ctx => Eval.unlimited_render ctx e

/-! ## Longer limits -/

/-- A statement leaves the limit. -/
theorem limit_stepRelation :
    StepRelation fun before after : Session π ρ => after.limits.steps = before.limits.steps where
  refl _ := rfl
  trans h h' := h'.trans h
  ticks _ := rfl
  assigns name e session _ := (untimed_assign name e).limit session
  renders e session _ := (untimed_render e).limit session
  emits line session := (untimed_emit line).limit session
  opens _ := rfl
  closes session := untimed_closeScope.limit session

mutual

/-- A statement that does not stop at the limit does the same under a longer
one. -/
theorem exec_within (statement : Stmt) {session : Session π ρ} {longer : Nat}
    (hle : session.limits.steps ≤ longer) (hdone : ¬Exhausted (exec statement session)) :
    exec statement (session.within longer) =
      onSession (within longer) (exec statement session) := by
  cases statement with
  | assign target value span =>
    unfold exec at hdone ⊢
    refine tick_bind_within hle hdone fun _ => ?_
    exact ((untimed_assign target.text value).bind fun _ => untimed_pure ()).within longer _
  | display value =>
    unfold exec at hdone ⊢
    refine tick_bind_within hle hdone fun _ => ?_
    exact ((untimed_render value).bind fun line => untimed_emit line).within longer _
  | block body span =>
    unfold exec at hdone ⊢
    refine tick_bind_within hle hdone fun hbody => ?_
    let opened : Session π ρ := { session.ticked with scopes := session.scopes.openScope }
    change ¬Exhausted (thenAlways (execAll body) closeScope opened) at hbody
    change thenAlways (execAll body) closeScope (opened.within longer) =
      onSession (within longer) (thenAlways (execAll body) closeScope opened)
    have hdone' : ¬Exhausted (execAll body opened) := by
      rintro ⟨limit, hlimit⟩
      exact hbody ⟨limit, by rw [fault?_thenAlways, hlimit]; rfl⟩
    exact onSession_thenAlways (execAll_within body hle hdone') (untimed_closeScope.within longer)

/-- Statements that do not stop at the limit do the same under a longer one. -/
theorem execAll_within (statements : List Stmt) {session : Session π ρ} {longer : Nat}
    (hle : session.limits.steps ≤ longer) (hdone : ¬Exhausted (execAll statements session)) :
    execAll statements (session.within longer) =
      onSession (within longer) (execAll statements session) := by
  cases statements with
  | nil =>
    unfold execAll
    rfl
  | cons statement later =>
    have hlimit := limit_stepRelation.exec statement session
    unfold execAll at hdone ⊢
    rw [bind_eq] at hdone ⊢
    rw [bind_eq]
    cases hresult : exec statement session with
    | ok _ session' =>
      rw [hresult] at hdone hlimit
      have hfirst : ¬Exhausted (exec statement session) := by
        rw [hresult]
        exact nofun
      rw [exec_within statement hle hfirst, hresult]
      have hle' : session'.limits.steps ≤ longer := Nat.le_trans (Nat.le_of_eq hlimit) hle
      exact execAll_within later hle' hdone
    | error fault session' =>
      rw [hresult] at hdone
      have hfirst : ¬Exhausted (exec statement session) := by
        rw [hresult]
        exact hdone
      rw [exec_within statement hle hfirst, hresult]
      rfl

end

end Session

end UnitScript
