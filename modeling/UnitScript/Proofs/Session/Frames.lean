import UnitScript.Proofs.Session.Calls

/-!
# What the operations leave alone

Operations on held strings change the pool and nothing else, so whatever is
kept of a session apart from its strings can be followed without looking at
the pool.  Everything here holds whatever the strings are kept in.

* `SameButStrings` is the frame of the operations on held strings.
* `frame_keep` and `frame_closeScope` say all that storing a variable and
  closing a scope do apart from that, `assign_steps` where an assignment stops.
* `StepRelation` is what a relation between a session and a later one asks of
  single steps; its theorems carry it through statements.  `StepRelationOn` asks
  it only where the expressions are of some kind, and follows calls too.
* `ScopesInvariant` is what an invariant of the open scopes asks of single
  steps; its theorems carry it through calls.
-/

namespace UnitScript.Session

variable {π ρ α : Type}

/-- The sessions are the same but for their strings. -/
def SameButStrings (before after : Session π ρ) : Prop :=
  ∃ pool, after = { before with store := { before.store with pool := pool } }

namespace SameButStrings

variable {before middle after : Session π ρ}

theorem refl (session : Session π ρ) : session.SameButStrings session :=
  ⟨session.store.pool, rfl⟩

theorem trans (h : before.SameButStrings middle) (h' : middle.SameButStrings after) :
    before.SameButStrings after := by
  obtain ⟨pool, rfl⟩ := h
  obtain ⟨pool', rfl⟩ := h'
  exact ⟨pool', rfl⟩

theorem scopes (h : before.SameButStrings after) : after.scopes = before.scopes := by
  obtain ⟨pool, rfl⟩ := h
  rfl

end SameButStrings

/-! ## Steps that leave the scopes -/

/-- Evaluation changes the store only. -/
theorem frame_evaluating (eval : Context ρ → Eval π α) (session : Session π ρ) :
    ∃ store, final (evaluating eval session) = { session with store := store } := by
  unfold evaluating
  cases eval session.context session.store with
  | ok _ store => exact ⟨store, rfl⟩
  | error _ store => exact ⟨store, rfl⟩

theorem scopes_evaluating (eval : Context ρ → Eval π α) (session : Session π ρ) :
    (final (evaluating eval session)).scopes = session.scopes := by
  obtain ⟨store, heq⟩ := frame_evaluating eval session
  rw [heq]

/-- Nothing that is done with the value of an operation matters here. -/
theorem final_discard {β : Type} (m : Run π ρ α) (value : α → β) (session : Session π ρ) :
    final ((do return value (← m) : Run π ρ β) session) = final (m session) := by
  rw [final_bind]
  cases m session <;> rfl

theorem scopes_emit (line : String) (session : Session π ρ) :
    (final (emit line session)).scopes = session.scopes := by
  unfold emit
  split <;> rfl

/-! ## Strings held by variables -/

theorem frame_changePool (change : π → Except Heap.Error π) (session : Session π ρ) :
    session.SameButStrings (final (changePool change session)) := by
  unfold changePool
  split
  · next pool _ => exact ⟨pool, rfl⟩
  · exact .refl session

variable [StringPool π ρ]

theorem frame_retain (value : Value ρ) (session : Session π ρ) :
    session.SameButStrings (final (retain value session)) := by
  cases value with
  | pointer r => exact frame_changePool _ session
  | _ => exact .refl session

theorem frame_release (value : Value ρ) (session : Session π ρ) :
    session.SameButStrings (final (release value session)) := by
  cases value with
  | pointer r => exact frame_changePool _ session
  | _ => exact .refl session

theorem frame_releaseAll (closed : List (Variable ρ)) (session : Session π ρ) :
    session.SameButStrings (final (releaseAll closed session)) := by
  induction closed generalizing session with
  | nil => exact .refl session
  | cons held later ih =>
    have hfirst := frame_release held.value session
    unfold releaseAll
    rw [final_bind]
    cases hresult : release held.value session with
    | ok _ session' =>
      rw [hresult] at hfirst
      exact hfirst.trans (ih session')
    | error _ session' =>
      rw [hresult] at hfirst
      exact hfirst

/-- Closing a scope closes it, whether its strings can be let go or not. -/
theorem frame_closeScope (session : Session π ρ) :
    SameButStrings { session with scopes := session.scopes.closeScope.2 }
      (final (closeScope session)) := by
  unfold closeScope
  split
  · next closed scopes hclosed =>
      rw [hclosed]
      exact frame_releaseAll closed.values { session with scopes := scopes }
  · next scopes hclosed =>
      have hscopes : session.scopes.closeScope.2 = session.scopes := by
        unfold Scopes.closeScope at hclosed ⊢
        split
        · next hlevels =>
            rw [hlevels] at hclosed
            cases hclosed
        · rfl
      rw [hscopes]
      exact .refl session

/-- A variable is put into the innermost scope, or it is not and the scopes
stay. -/
theorem frame_keep (name : String) (held : Variable ρ) (session : Session π ρ) :
    session.SameButStrings (final (keep name held session)) ∨
      ∃ scope outer, session.scopes.levels = scope :: outer ∧
        SameButStrings { session with scopes := ⟨scope.insert name held :: outer⟩ }
          (final (keep name held session)) := by
  have hretain := frame_retain held.value session
  unfold keep
  rw [final_bind]
  cases hretained : retain held.value session with
  | error _ stopped =>
    rw [hretained] at hretain
    exact .inl hretain
  | ok _ session' =>
    rw [hretained] at hretain
    obtain ⟨pool, hpool⟩ : session.SameButStrings session' := hretain
    subst hpool
    simp only
    rw [final_bind, declare, Scopes.declare]
    cases hlevels : session.scopes.levels with
    | nil => exact .inl ⟨pool, rfl⟩
    | cons scope outer =>
      refine .inr ⟨scope, outer, rfl, ?_⟩
      have hstored : SameButStrings { session with scopes := ⟨scope.insert name held :: outer⟩ }
          { session with
            scopes := ⟨scope.insert name held :: outer⟩
            store := { session.store with pool := pool } } := ⟨pool, rfl⟩
      cases hreplaced : scope.get? name with
      | none =>
        simp only [hreplaced]
        exact hstored
      | some replaced =>
        simp only [hreplaced]
        exact hstored.trans (frame_release replaced.value _)

/-! ## Assignments -/

variable [DecidableEq ρ]

/-- An assignment stops while its value is evaluated, or because no scope is
open, or it settles what to store and stores it. -/
theorem assign_steps (name : String) (e : Expr) (session : Session π ρ) :
    (∃ fault store, Eval.expr session.context e session.store = .error fault store ∧
        assign name e session = .error fault { session with store := store }) ∨
      ∃ evaluated store, Eval.expr session.context e session.store = .ok evaluated store ∧
        (assign name e session = .error (.scope .noScope) { session with store := store } ∨
          ∃ scope outer, session.scopes.levels = scope :: outer ∧
            let settled := evaluated.settle name ((scope.get? name).bind (·.unit))
            assign name e session =
              (do keep name settled.1; return settled.1.value)
                (session.noted store e.span settled.2)) := by
  cases hlevels : session.scopes.levels with
  | cons scope outer =>
    rw [assign_eq session name e hlevels]
    cases hresult : Eval.expr session.context e session.store with
    | error fault store => exact .inl ⟨fault, store, rfl, rfl⟩
    | ok evaluated store => exact .inr ⟨evaluated, store, rfl, .inr ⟨scope, outer, rfl, rfl⟩⟩
  | nil =>
    have hcurrent : session.scopes.current = .error .noScope := by
      simp only [Scopes.current, hlevels]
    have hget (next : Session π ρ → Run π ρ (Value ρ)) (reached : Session π ρ) :
        (get >>= next) reached = next reached reached := rfl
    unfold assign
    rw [bind_eq, evaluating]
    cases hresult : Eval.expr session.context e session.store with
    | error fault store => exact .inl ⟨fault, store, rfl, rfl⟩
    | ok evaluated store =>
      refine .inr ⟨evaluated, store, rfl, .inl ?_⟩
      simp only [hget, hcurrent]
      rfl

/-- The scopes after an assignment are those before, or a variable that was
settled is put into the innermost one. -/
theorem scopes_assign (name : String) (e : Expr) (session : Session π ρ) :
    (final (assign name e session)).scopes = session.scopes ∨
      ∃ evaluated store scope outer,
        Eval.expr session.context e session.store = .ok evaluated store ∧
        session.scopes.levels = scope :: outer ∧
        (final (assign name e session)).scopes =
          ⟨scope.insert name (evaluated.settle name ((scope.get? name).bind (·.unit))).1
            :: outer⟩ := by
  rcases assign_steps name e session with
    ⟨fault, store, _, heq⟩ | ⟨evaluated, store, hresult, heq | ⟨scope, outer, hlevels, heq⟩⟩
  · exact .inl (by rw [heq]; rfl)
  · exact .inl (by rw [heq]; rfl)
  · rw [heq]
    generalize hsettled : evaluated.settle name ((scope.get? name).bind (·.unit)) = settled
    have hframe := frame_keep name settled.1 (session.noted store e.span settled.2)
    have hfinal : final ((do keep name settled.1; return settled.1.value : Run π ρ (Value ρ))
        (session.noted store e.span settled.2)) =
        final (keep name settled.1 (session.noted store e.span settled.2)) := by
      rw [final_bind]
      cases keep name settled.1 (session.noted store e.span settled.2) <;> rfl
    rw [hfinal]
    rcases hframe with hframe | ⟨scope', outer', hlevels', hframe⟩
    · exact .inl hframe.scopes
    · obtain ⟨rfl, rfl⟩ : scope = scope' ∧ outer = outer' :=
        List.cons.inj (hlevels.symm.trans hlevels')
      exact .inr ⟨evaluated, store, scope, outer, hresult, hlevels, by rw [hsettled, hframe.scopes]⟩

/-- An assignment changes the scopes and the store only. -/
theorem frame_assign (name : String) (e : Expr) (session : Session π ρ) :
    ∃ scopes store, final (assign name e session) =
      { session with scopes := scopes, store := store } := by
  rcases assign_steps name e session with
    ⟨fault, store, _, heq⟩ | ⟨evaluated, store, _, heq | ⟨scope, outer, _, heq⟩⟩
  · exact ⟨session.scopes, store, by rw [heq]; rfl⟩
  · exact ⟨session.scopes, store, by rw [heq]; rfl⟩
  · rw [heq, final_discard]
    generalize evaluated.settle name ((scope.get? name).bind (·.unit)) = settled
    rcases frame_keep name settled.1 (session.noted store e.span settled.2) with
      ⟨pool, heq⟩ | ⟨scope', outer', _, pool, heq⟩
    · exact ⟨_, _, heq⟩
    · exact ⟨_, _, heq⟩

/-! ## Relations that statements respect -/

/-- A relation between a session and a later one that every step of a statement
respects, if the expressions of the statement are allowed. -/
structure StepRelationOn [ToString ρ] (Allowed : Expr → Prop)
    (R : Session π ρ → Session π ρ → Prop) : Prop where
  refl : ∀ session, R session session
  trans : ∀ {before middle after}, R before middle → R middle after → R before after
  ticks : ∀ session, R session session.ticked
  assigns : ∀ name e session, Allowed e → R session (final (assign name e session))
  renders : ∀ e session, Allowed e → R session (final (render e session))
  emits : ∀ line session, R session (final (emit line session))
  opens : ∀ session, R session { session with scopes := session.scopes.openScope }
  closes : ∀ session, R session (final (closeScope session))

namespace StepRelationOn

variable [ToString ρ] {Allowed : Expr → Prop} {R : Session π ρ → Session π ρ → Prop}

mutual

/-- A statement respects what its steps respect. -/
theorem exec (hrel : StepRelationOn Allowed R) (statement : Stmt)
    (hallowed : ∀ e ∈ statement.exprs, Allowed e) (session : Session π ρ) :
    R session (final (Session.exec statement session)) := by
  have hticked := hrel.ticks session
  unfold Stmt.exprs at hallowed
  cases statement with
  | assign target value span =>
    unfold Session.exec
    rw [tick_bind]
    split
    · exact hticked
    · rw [final_discard]
      have hvalue := List.forall_mem_singleton.1 hallowed
      exact hrel.trans hticked (hrel.assigns target.text value session.ticked hvalue)
  | display value =>
    have hrendered := hrel.renders value session.ticked (List.forall_mem_singleton.1 hallowed)
    unfold Session.exec
    rw [tick_bind]
    split
    · exact hticked
    · rw [final_bind]
      cases hresult : render value session.ticked with
      | ok line session' =>
        rw [hresult] at hrendered
        exact hrel.trans hticked (hrel.trans hrendered (hrel.emits line session'))
      | error _ session' =>
        rw [hresult] at hrendered
        exact hrel.trans hticked hrendered
  | block body span =>
    unfold Session.exec
    rw [tick_bind]
    split
    · exact hticked
    · change R session (final (thenAlways (Session.execAll body) closeScope
        { session.ticked with scopes := session.ticked.scopes.openScope }))
      rw [final_thenAlways]
      have hopened := hrel.trans hticked (hrel.opens session.ticked)
      have hbody := hrel.trans hopened (execAll hrel body hallowed _)
      exact hrel.trans hbody (hrel.closes _)

/-- Statements respect what their steps respect. -/
theorem execAll (hrel : StepRelationOn Allowed R) (statements : List Stmt)
    (hallowed : ∀ e ∈ Stmt.allExprs statements, Allowed e) (session : Session π ρ) :
    R session (final (Session.execAll statements session)) := by
  cases statements with
  | nil =>
    unfold Session.execAll
    exact hrel.refl session
  | cons statement later =>
    unfold Stmt.allExprs at hallowed
    obtain ⟨hstatement, hlater⟩ := List.forall_mem_append.1 hallowed
    have hfirst := exec hrel statement hstatement session
    unfold Session.execAll
    rw [final_bind]
    cases hresult : Session.exec statement session with
    | ok _ session' =>
      rw [hresult] at hfirst
      exact hrel.trans hfirst (execAll hrel later hlater session')
    | error _ session' =>
      rw [hresult] at hfirst
      exact hfirst

end

section Calls

variable (hrel : StepRelationOn Allowed R)
  (hevaluating : ∀ {α : Type} (eval : Context ρ → Eval π α) (session : Session π ρ),
    R session (final (evaluating eval session)))

include hrel hevaluating

/-- A call respects what its steps respect. -/
theorem perform {call : Call} (hallowed : ∀ e ∈ call.exprs, Allowed e) (session : Session π ρ) :
    R session (session.perform call) := by
  unfold Session.perform
  cases call with
  | exec statement => exact hrel.exec statement hallowed session
  | execProgram program => exact hrel.execAll program.statements hallowed session
  | assign name value =>
    rw [Call.run, final_discard]
    exact hrel.assigns name value session (List.forall_mem_singleton.1 hallowed)
  | evaluate value =>
    rw [Call.run, final_discard, evaluate, final_discard]
    exact hevaluating _ session
  | quantity value =>
    rw [Call.run, final_discard, quantity, final_discard]
    exact hevaluating _ session
  | render value =>
    rw [Call.run, final_discard]
    exact hrel.renders value session (List.forall_mem_singleton.1 hallowed)
  | measure unit =>
    rw [Call.run, final_discard]
    exact hevaluating _ session
  | openScope => exact hrel.opens session
  | closeScope => exact hrel.closes session

/-- Calls respect what their steps respect. -/
theorem performAll {calls : List Call} (hallowed : ∀ call ∈ calls, ∀ e ∈ call.exprs, Allowed e)
    (session : Session π ρ) : R session (session.performAll calls) := by
  induction calls generalizing session with
  | nil => exact hrel.refl session
  | cons call later ih =>
    obtain ⟨hcall, hlater⟩ := List.forall_mem_cons.1 hallowed
    exact hrel.trans (perform hrel hevaluating hcall session) (ih hlater (session.perform call))

end Calls

end StepRelationOn

/-- A relation between a session and a later one that every step of a statement
respects. -/
abbrev StepRelation [ToString ρ] (R : Session π ρ → Session π ρ → Prop) : Prop :=
  StepRelationOn (fun _ => True) R

namespace StepRelation

variable [ToString ρ] {R : Session π ρ → Session π ρ → Prop}

theorem exec (hrel : StepRelation R) (statement : Stmt) (session : Session π ρ) :
    R session (final (Session.exec statement session)) :=
  StepRelationOn.exec hrel statement (fun _ _ => trivial) session

theorem execAll (hrel : StepRelation R) (statements : List Stmt) (session : Session π ρ) :
    R session (final (Session.execAll statements session)) :=
  StepRelationOn.execAll hrel statements (fun _ _ => trivial) session

end StepRelation

/-! ## Invariants of the open scopes -/

/-- What is true of the open scopes stays true when a scope is opened or closed
and when a variable is assigned to. -/
structure ScopesInvariant (π : Type) [StringPool π ρ] (P : Scopes ρ → Prop) : Prop where
  opens : ∀ scopes, P scopes → P scopes.openScope
  closes : ∀ scopes, P scopes → P scopes.closeScope.2
  assigns : ∀ name e (session : Session π ρ), P session.scopes →
    P (final (assign name e session)).scopes

namespace ScopesInvariant

variable [ToString ρ] {P : Scopes ρ → Prop}

/-- An invariant of the open scopes as a relation: it is not lost. -/
theorem stepRelation (hinv : ScopesInvariant π P) :
    StepRelation fun before after : Session π ρ => P before.scopes → P after.scopes where
  refl _ h := h
  trans h h' hbefore := h' (h hbefore)
  ticks _ h := h
  assigns name e session _ h := hinv.assigns name e session h
  renders e session _ h := by
    rw [render, scopes_evaluating]
    exact h
  emits line session h := by
    rw [scopes_emit]
    exact h
  opens session h := hinv.opens _ h
  closes session h := by
    rw [(frame_closeScope session).scopes]
    exact hinv.closes _ h

/-- A call preserves an invariant of the open scopes. -/
theorem perform (hinv : ScopesInvariant π P) (session : Session π ρ) (call : Call)
    (h : P session.scopes) : P (session.perform call).scopes := by
  refine StepRelationOn.perform hinv.stepRelation (fun eval session h => ?_) (fun _ _ => trivial)
    session h
  rw [scopes_evaluating]
  exact h

/-- An invariant of the open scopes holds in every session that calls lead to. -/
theorem performAll (hinv : ScopesInvariant π P) {session : Session π ρ} (h : P session.scopes)
    (calls : List Call) : P (session.performAll calls).scopes :=
  performAll_induction (P := fun later => P later.scopes) hinv.perform h calls

end ScopesInvariant

end UnitScript.Session
