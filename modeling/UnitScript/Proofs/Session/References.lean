import UnitScript.Proofs.Session.Calls
import UnitScript.Proofs.Session.Evaluation

/-!
# Reference counts of a session

The counts of a session are exact at all times: a string has the reference of
the heap and one of each variable that holds it, in whatever scope.  So no
variable holds a dead pointer, no string goes away, and the heap never finds a
pointer or a count in disorder.

* `Sound` is the invariant.
* `retain_spec`, `release_spec`, `releaseAll_spec`, `keep_spec` and
  `closeScope_spec` say all that the operations on held strings do.  The count
  is wrong inside `keep` and `closeScope` and right again behind them, so
  these two are the steps that the invariant is stated for.
* `Safe` is what an operation on a session guarantees, `safe_exec` and
  `safe_call` are the results about statements and calls.
* `references_exact` is the whole statement, for every list of calls.
-/

namespace UnitScript

/-- The fault does not show the heap in disorder: if it comes from the heap at
all, a count was at its greatest. -/
def Fault.Spares (fault : Fault) : Prop :=
  ∀ error, fault = .heap error → ∃ p, error = .overflow p

namespace Session

variable {α β : Type}

/-- The session with other strings. -/
def withPool (session : Session Heap Pointer) (pool : Heap) : Session Heap Pointer :=
  { session with store := { session.store with pool := pool } }

/-- The counts of the session are exact, and there is a scope to assign in. -/
structure Sound (session : Session Heap Pointer) : Prop where
  accounts : session.store.pool.Accounts session.scopes.contents
  opened : session.scopes.levels ≠ []

theorem sound_start (source : Source) (limits : Limits) (registry : Registry) :
    (start source limits registry Heap.empty : Session Heap Pointer).Sound where
  accounts := Heap.accounts_empty
  opened := nofun

/-! ## Strings held by variables -/

/-- A variable without a string does not count. -/
private theorem accounts_cons_iff {heap : Heap} {holder : Variable Pointer}
    {held : List (Variable Pointer)} (h : ∀ p, holder.value ≠ .pointer p) :
    heap.Accounts (holder :: held) ↔ heap.Accounts held := by
  constructor
  · intro ha
    refine ⟨ha.shared, fun p cell hcell => ?_, fun other hmem => ?_⟩
    · rw [ha.refs p cell hcell, Heap.holders_cons_of_ne (h p)]
    · exact ha.live other (List.mem_cons_of_mem _ hmem)
  · intro ha
    refine ⟨ha.shared, fun p cell hcell => ?_, fun other hmem => ?_⟩
    · rw [ha.refs p cell hcell, Heap.holders_cons_of_ne (h p)]
    · rcases List.mem_cons.1 hmem with rfl | hmem
      · exact Value.live_of_ne_pointer h
      · exact ha.live other hmem

/-- One more variable holds its value, unless the count is at its greatest. -/
theorem retain_spec (session : Session Heap Pointer) {holder : Variable Pointer}
    {held : List (Variable Pointer)} (h : session.store.pool.Accounts held)
    (hlive : holder.value.Live session.store.pool) :
    (∃ pool, retain holder.value session = .ok () (session.withPool pool) ∧
        session.store.pool.Keeps pool ∧ pool.Accounts (holder :: held)) ∨
      ∃ p, retain holder.value session = .error (.heap (.overflow p)) session ∧
        Heap.maxRefs < 2 + p.holders held := by
  cases hvalue : holder.value with
  | pointer p =>
    rcases Heap.accounts_addRef h hvalue (hlive p hvalue) with ⟨pool, heq, hkeeps, hpool⟩ | ⟨heq, hmax⟩
    · refine .inl ⟨pool, ?_, hkeeps, hpool⟩
      simp only [retain, changePool, StringPool.retain, heq]
      rfl
    · refine .inr ⟨p, ?_, hmax⟩
      simp only [retain, changePool, StringPool.retain, heq]
  | _ =>
    refine .inl ⟨session.store.pool, rfl, .refl _, ?_⟩
    refine (accounts_cons_iff fun p => ?_).2 h
    rw [hvalue]
    exact nofun

/-- A variable lets go of its value. -/
theorem release_spec (session : Session Heap Pointer) {holder : Variable Pointer}
    {held : List (Variable Pointer)} (h : session.store.pool.Accounts (holder :: held)) :
    ∃ pool, release holder.value session = .ok () (session.withPool pool) ∧
      session.store.pool.Keeps pool ∧ pool.Accounts held := by
  cases hvalue : holder.value with
  | pointer p =>
    obtain ⟨pool, heq, hkeeps, hpool⟩ := Heap.accounts_release hvalue h
    refine ⟨pool, ?_, hkeeps, hpool⟩
    simp only [release, changePool, StringPool.release, heq]
    rfl
  | _ =>
    refine ⟨session.store.pool, rfl, .refl _, ?_⟩
    refine (accounts_cons_iff fun p => ?_).1 h
    rw [hvalue]
    exact nofun

/-- Variables let go of their values. -/
theorem releaseAll_spec (session : Session Heap Pointer) {closed held : List (Variable Pointer)}
    (h : session.store.pool.Accounts (closed ++ held)) :
    ∃ pool, releaseAll closed session = .ok () (session.withPool pool) ∧
      session.store.pool.Keeps pool ∧ pool.Accounts held := by
  induction closed generalizing session with
  | nil => exact ⟨session.store.pool, rfl, .refl _, h⟩
  | cons holder later ih =>
    obtain ⟨pool, heq, hkeeps, hpool⟩ := release_spec session h
    obtain ⟨pool', heq', hkeeps', hpool'⟩ := ih (session.withPool pool) hpool
    refine ⟨pool', ?_, hkeeps.trans hkeeps', hpool'⟩
    simp only [releaseAll, bind, EStateM.bind, heq, heq']
    rfl

/-- A variable is put into the innermost scope, or nothing happens because a
count is at its greatest. -/
theorem keep_spec (session : Session Heap Pointer) (hsound : session.Sound) (name : String)
    {held : Variable Pointer} (hlive : held.value.Live session.store.pool) :
    (∃ scope outer pool, session.scopes.levels = scope :: outer ∧
        keep name held session =
          .ok () { session.withPool pool with scopes := ⟨scope.insert name held :: outer⟩ } ∧
        session.store.pool.Keeps pool ∧
        pool.Accounts (Scopes.contents ⟨scope.insert name held :: outer⟩)) ∨
      ∃ p, keep name held session = .error (.heap (.overflow p)) session ∧
        Heap.maxRefs < 2 + p.holders session.scopes.contents := by
  rcases retain_spec session hsound.accounts hlive with ⟨pool, heq, hkeeps, hpool⟩ | ⟨p, heq, hmax⟩
  · refine .inl ?_
    obtain ⟨scope, outer, hlevels⟩ := List.exists_cons_of_ne_nil hsound.opened
    have hcontents : session.scopes.contents = scope.values ++ Scopes.contents ⟨outer⟩ := by
      rw [Scopes.contents, hlevels]
      rfl
    rw [hcontents] at hpool
    have hdeclare : declare name held (session.withPool pool) =
        .ok (scope.get? name)
          { session.withPool pool with scopes := ⟨scope.insert name held :: outer⟩ } := by
      simp only [declare, Scopes.declare, withPool, hlevels]
    cases hget : scope.get? name with
    | none =>
      refine ⟨scope, outer, pool, hlevels, ?_, hkeeps, ?_⟩
      · rw [hget] at hdeclare
        simp only [keep, bind, EStateM.bind, heq, hdeclare]
        rfl
      · exact hpool.perm ((Table.values_insert_of_none held hget).symm.append_right _)
    | some replaced =>
      rw [hget] at hdeclare
      have hpool' := hpool.perm
        ((Table.values_insert_of_some held hget).symm.append_right (Scopes.contents ⟨outer⟩))
      obtain ⟨pool', hrelease, hkeeps', hpool''⟩ := release_spec
        { session.withPool pool with scopes := ⟨scope.insert name held :: outer⟩ } hpool'
      refine ⟨scope, outer, pool', hlevels, ?_, hkeeps.trans hkeeps', hpool''⟩
      simp only [keep, bind, EStateM.bind, heq, hdeclare, hrelease]
      rfl
  · refine .inr ⟨p, ?_, hmax⟩
    simp only [keep, bind, EStateM.bind, heq]

/-- The innermost scope is closed unless it is the global one. -/
theorem closeScope_spec (session : Session Heap Pointer) (hsound : session.Sound) :
    ∃ pool, closeScope session =
        .ok () { session.withPool pool with scopes := session.scopes.closeScope.2 } ∧
      session.store.pool.Keeps pool ∧ pool.Accounts session.scopes.closeScope.2.contents := by
  have haccounts := hsound.accounts
  rcases hlevels : session.scopes.levels with _ | ⟨inner, _ | ⟨outer, rest⟩⟩
  · exact absurd hlevels hsound.opened
  · have hclose : session.scopes.closeScope = (none, session.scopes) := by
      simp only [Scopes.closeScope, hlevels]
    refine ⟨session.store.pool, ?_, .refl _, ?_⟩
    · simp only [closeScope, hclose]
      rfl
    · rw [hclose]
      exact haccounts
  · have hclose : session.scopes.closeScope = (some inner, ⟨outer :: rest⟩) := by
      simp only [Scopes.closeScope, hlevels]
    have hcontents : session.scopes.contents =
        inner.values ++ Scopes.contents ⟨outer :: rest⟩ := by
      rw [Scopes.contents, hlevels]
      rfl
    rw [hcontents] at haccounts
    obtain ⟨pool, heq, hkeeps, hpool⟩ :=
      releaseAll_spec { session with scopes := ⟨outer :: rest⟩ } haccounts
    refine ⟨pool, ?_, hkeeps, ?_⟩
    · simp only [closeScope, hclose, heq]
      rfl
    · rw [hclose]
      exact hpool

/-! ## What an operation guarantees -/

/-- After an operation that started with `before`, the session is sound and
has the same strings.  A result satisfies `good`; a fault does not show the
heap in disorder. -/
def Safe (before : Session Heap Pointer) (good : α → Session Heap Pointer → Prop) :
    EStateM.Result Fault (Session Heap Pointer) α → Prop
  | .ok value session =>
      session.Sound ∧ before.store.pool.Keeps session.store.pool ∧ good value session
  | .error fault session =>
      session.Sound ∧ before.store.pool.Keeps session.store.pool ∧ fault.Spares

/-- A result about which nothing is said. -/
abbrev anyResult (_ : α) (_ : Session Heap Pointer) : Prop := True

/-- What an operation guarantees, it guarantees from an earlier session on. -/
theorem Safe.after {before : Session Heap Pointer} (session : Session Heap Pointer)
    {good : α → Session Heap Pointer → Prop}
    {result : EStateM.Result Fault (Session Heap Pointer) α}
    (hkeeps : before.store.pool.Keeps session.store.pool) (h : Safe session good result) :
    Safe before good result := by
  cases result with
  | ok _ _ => exact ⟨h.1, hkeeps.trans h.2.1, h.2.2⟩
  | error _ _ => exact ⟨h.1, hkeeps.trans h.2.1, h.2.2⟩

theorem Safe.bind {session : Session Heap Pointer} {m : Run Heap Pointer α}
    {next : α → Run Heap Pointer β} {good : α → Session Heap Pointer → Prop}
    {good' : β → Session Heap Pointer → Prop} (hm : Safe session good (m session))
    (hnext : ∀ value session', session'.Sound → good value session' →
      Safe session' good' (next value session')) :
    Safe session good' ((m >>= next) session) := by
  rw [bind_eq]
  cases hresult : m session with
  | error fault session' =>
    rw [hresult] at hm
    exact hm
  | ok value session' =>
    rw [hresult] at hm
    obtain ⟨hsound, hkeeps, hgood⟩ := hm
    exact (hnext value session' hsound hgood).after session' hkeeps

theorem safe_pure {session : Session Heap Pointer} (hsound : session.Sound) (value : α) :
    Safe session anyResult ((pure value : Run Heap Pointer α) session) :=
  ⟨hsound, .refl _, trivial⟩

/-- The value of an operation can be dropped. -/
theorem Safe.discard {session : Session Heap Pointer} {m : Run Heap Pointer α}
    {good : α → Session Heap Pointer → Prop} (hm : Safe session good (m session)) (value : α → β) :
    Safe session anyResult ((do return value (← m) : Run Heap Pointer β) session) :=
  hm.bind fun _ _ hsound _ => safe_pure hsound _

/-- A statement is safe if it is safe once it is counted. -/
theorem safe_tick_bind {session : Session Heap Pointer} (hsound : session.Sound)
    {next : Unit → Run Heap Pointer α} {good : α → Session Heap Pointer → Prop}
    (hnext : ∀ counted : Session Heap Pointer, counted.Sound → Safe counted good (next () counted)) :
    Safe session good ((tick >>= next) session) := by
  rw [tick_bind]
  split
  · exact ⟨⟨hsound.accounts, hsound.opened⟩, .refl _, fun _ => nofun⟩
  · exact hnext session.ticked ⟨hsound.accounts, hsound.opened⟩

theorem safe_emit {session : Session Heap Pointer} (hsound : session.Sound) (line : String) :
    Safe session anyResult (emit line session) := by
  unfold emit
  split <;> exact ⟨⟨hsound.accounts, hsound.opened⟩, .refl _, trivial⟩

theorem safe_openScope {session : Session Heap Pointer} (hsound : session.Sound) :
    Safe session anyResult (openScope session) :=
  ⟨⟨hsound.accounts, nofun⟩, .refl _, trivial⟩

theorem safe_closeScope {session : Session Heap Pointer} (hsound : session.Sound) :
    Safe session anyResult (closeScope session) := by
  obtain ⟨pool, heq, hkeeps, hpool⟩ := closeScope_spec session hsound
  rw [heq]
  refine ⟨⟨hpool, ?_⟩, hkeeps, trivial⟩
  unfold Scopes.closeScope
  split
  · exact nofun
  · exact hsound.opened

/-- An evaluation that is orderly is safe. -/
theorem safe_evaluating {session : Session Heap Pointer} (hsound : session.Sound)
    (eval : Context Pointer → Eval Heap α) {good : α → Heap → Prop}
    (heval : Eval.Orderly session.scopes.contents session.store.pool good
      (eval session.context session.store)) :
    Safe session (fun value session' => good value session'.store.pool)
      (evaluating eval session) := by
  unfold evaluating
  cases hresult : eval session.context session.store with
  | ok value store =>
    rw [hresult] at heval
    exact ⟨⟨heval.1, hsound.opened⟩, heval.2⟩
  | error fault store =>
    rw [hresult] at heval
    exact ⟨⟨heval.1, hsound.opened⟩, heval.2.1, fun error herror => absurd herror (heval.2.2 error)⟩

theorem safe_expr {session : Session Heap Pointer} (hsound : session.Sound) (e : Expr) :
    Safe session (fun result session' => result.value.Live session'.store.pool)
      ((evaluating fun ctx => Eval.expr ctx e) session) :=
  safe_evaluating hsound (fun ctx => Eval.expr ctx e)
    (Eval.orderly_expr session.context e session.store hsound.accounts)

theorem safe_render {session : Session Heap Pointer} (hsound : session.Sound) (e : Expr) :
    Safe session (fun _ _ => True) (render e session) :=
  safe_evaluating hsound (fun ctx => Eval.render ctx e)
    (Eval.orderly_render session.context e session.store hsound.accounts)

theorem safe_measure {session : Session Heap Pointer} (hsound : session.Sound) (unit : UnitExpr) :
    Safe session (fun _ _ => True) (measure unit session) :=
  ⟨⟨hsound.accounts, hsound.opened⟩, .refl _, trivial⟩

theorem safe_thenAlways {session : Session Heap Pointer} {body close : Run Heap Pointer Unit}
    (hbody : Safe session anyResult (body session))
    (hclose : ∀ session', session'.Sound → Safe session' anyResult (close session')) :
    Safe session anyResult (thenAlways body close session) := by
  unfold thenAlways
  cases hresult : body session with
  | ok value session' =>
    rw [hresult] at hbody
    exact (hclose session' hbody.1).after session' hbody.2.1
  | error fault session' =>
    rw [hresult] at hbody
    have hlast := (hclose session' hbody.1).after session' hbody.2.1
    simp only
    -- the fault of the body stays, whatever closing does
    cases hresult' : close session' with
    | ok _ _ => rw [hresult'] at hlast; exact ⟨hlast.1, hlast.2.1, hbody.2.2⟩
    | error _ _ => rw [hresult'] at hlast; exact ⟨hlast.1, hlast.2.1, hbody.2.2⟩

/-! ## Assignment -/

/-- What is stored is the value that was computed, or a number. -/
theorem live_settle {heap : Heap} {evaluated : Evaluated Pointer} (name : String)
    (previous : Option Binding) (h : evaluated.value.Live heap) :
    (evaluated.settle name previous).1.value.Live heap := by
  unfold Evaluated.settle
  split
  · exact Value.live_of_ne_pointer nofun
  · exact h

/-- All that an assignment does: evaluation stops, or a count is at its
greatest, or a variable is put into the innermost scope. -/
theorem assign_spec (session : Session Heap Pointer) (hsound : session.Sound) (name : String)
    (e : Expr) :
    (∃ fault store, Eval.expr session.context e session.store = .error fault store ∧
        assign name e session = .error fault { session with store := store }) ∨
      ∃ evaluated store scope outer, session.scopes.levels = scope :: outer ∧
        Eval.expr session.context e session.store = .ok evaluated store ∧
        let settled := evaluated.settle name ((scope.get? name).bind (·.unit))
        let noted := session.noted store e.span settled.2
        (∃ p, assign name e session = .error (.heap (.overflow p)) noted ∧
            Heap.maxRefs < 2 + p.holders session.scopes.contents) ∨
          ∃ pool, assign name e session = .ok settled.1.value
              { noted.withPool pool with scopes := ⟨scope.insert name settled.1 :: outer⟩ } ∧
            store.pool.Keeps pool ∧
            pool.Accounts (Scopes.contents ⟨scope.insert name settled.1 :: outer⟩) := by
  obtain ⟨scope, outer, hlevels⟩ := List.exists_cons_of_ne_nil hsound.opened
  have heval := Eval.orderly_expr session.context e session.store hsound.accounts
  rw [assign_eq session name e hlevels]
  cases hresult : Eval.expr session.context e session.store with
  | error fault store => exact .inl ⟨fault, store, rfl, rfl⟩
  | ok evaluated store =>
    rw [hresult] at heval
    obtain ⟨haccounts, _, hlive⟩ := heval
    refine .inr ⟨evaluated, store, scope, outer, hlevels, rfl, ?_⟩
    simp only
    generalize hsettled : evaluated.settle name ((scope.get? name).bind (·.unit)) = settled
    have hsettledLive : settled.1.value.Live store.pool := hsettled ▸ live_settle name _ hlive
    have hnoted : (session.noted store e.span settled.2).Sound := ⟨haccounts, hsound.opened⟩
    rcases keep_spec _ hnoted name hsettledLive with
      ⟨scope', outer', pool, hlevels', heq, hkeeps, hpool⟩ | ⟨p, heq, hmax⟩
    · obtain ⟨rfl, rfl⟩ : scope = scope' ∧ outer = outer' :=
        List.cons.inj (hlevels.symm.trans hlevels')
      refine .inr ⟨pool, ?_, hkeeps, hpool⟩
      simp only [bind, EStateM.bind, heq]
      rfl
    · refine .inl ⟨p, ?_, hmax⟩
      simp only [bind, EStateM.bind, heq]

theorem safe_assign {session : Session Heap Pointer} (hsound : session.Sound) (name : String)
    (e : Expr) : Safe session anyResult (assign name e session) := by
  have heval := Eval.orderly_expr session.context e session.store hsound.accounts
  rcases assign_spec session hsound name e with
    ⟨fault, store, hresult, heq⟩ | ⟨evaluated, store, scope, outer, _, hresult, hstored⟩
  · rw [hresult] at heval
    rw [heq]
    exact ⟨⟨heval.1, hsound.opened⟩, heval.2.1, fun error herror => absurd herror (heval.2.2 error)⟩
  · rw [hresult] at heval
    rcases hstored with ⟨p, heq, _⟩ | ⟨pool, heq, hkeeps, hpool⟩
    · rw [heq]
      refine ⟨⟨heval.1, hsound.opened⟩, heval.2.1, ?_⟩
      intro error herror
      cases herror
      exact ⟨p, rfl⟩
    · rw [heq]
      exact ⟨⟨hpool, nofun⟩, heval.2.1.trans hkeeps, trivial⟩

/-! ## Statements -/

mutual

/-- A statement is safe in every sound session. -/
theorem safe_exec (statement : Stmt) {session : Session Heap Pointer} (hsound : session.Sound) :
    Safe session anyResult (exec statement session) := by
  cases statement with
  | assign target value span =>
    unfold exec
    refine safe_tick_bind hsound fun counted hcounted => ?_
    exact (safe_assign hcounted target.text value).discard _
  | display value =>
    unfold exec
    refine safe_tick_bind hsound fun counted hcounted => ?_
    exact (safe_render hcounted value).bind fun line _ hshown _ => safe_emit hshown line
  | block body span =>
    unfold exec
    refine safe_tick_bind hsound fun counted hcounted => ?_
    refine (safe_openScope hcounted).bind fun _ opened hopened _ => ?_
    exact safe_thenAlways (safe_execAll body hopened) fun _ hdone => safe_closeScope hdone

/-- A list of statements is safe in every sound session. -/
theorem safe_execAll (statements : List Stmt) {session : Session Heap Pointer}
    (hsound : session.Sound) : Safe session anyResult (execAll statements session) := by
  cases statements with
  | nil => 
    unfold execAll
    exact safe_pure hsound ()
  | cons statement later =>
    unfold execAll
    exact (safe_exec statement hsound).bind fun _ _ hdone _ => safe_execAll later hdone

end

/-- A call is safe in every sound session. -/
theorem safe_call (call : Call) {session : Session Heap Pointer} (hsound : session.Sound) :
    Safe session anyResult (call.run session) := by
  cases call with
  | exec statement => exact safe_exec statement hsound
  | execProgram program => exact safe_execAll program.statements hsound
  | assign name value => exact (safe_assign hsound name value).discard _
  | evaluate value => exact ((safe_expr hsound value).discard _).discard _
  | quantity value => exact ((safe_expr hsound value).discard _).discard _
  | render value => exact (safe_render hsound value).discard _
  | measure unit => exact (safe_measure hsound unit).discard _
  | openScope => exact safe_openScope hsound
  | closeScope => exact safe_closeScope hsound

/-! ## Reachable sessions -/

theorem Safe.final {before : Session Heap Pointer} {good : α → Session Heap Pointer → Prop}
    {result : EStateM.Result Fault (Session Heap Pointer) α} (h : Safe before good result) :
    (final result).Sound ∧ before.store.pool.Keeps (final result).store.pool := by
  cases result with
  | ok _ _ => exact ⟨h.1, h.2.1⟩
  | error _ _ => exact ⟨h.1, h.2.1⟩

theorem Safe.fault? {before : Session Heap Pointer} {good : α → Session Heap Pointer → Prop}
    {result : EStateM.Result Fault (Session Heap Pointer) α} (h : Safe before good result)
    {fault : Fault} (hfault : Session.fault? result = some fault) : fault.Spares := by
  cases result with
  | ok _ _ => cases hfault
  | error _ _ =>
    cases hfault
    exact h.2.2

/-- Calls keep a session sound, and no string goes away. -/
theorem sound_performAll {session : Session Heap Pointer} (hsound : session.Sound)
    (calls : List Call) :
    (session.performAll calls).Sound ∧
      session.store.pool.Keeps (session.performAll calls).store.pool := by
  refine performAll_induction
    (P := fun later => later.Sound ∧ session.store.pool.Keeps later.store.pool) ?_
    ⟨hsound, .refl _⟩ calls
  intro later call h
  have hcall := (safe_call call h.1).final
  exact ⟨hcall.1, h.2.trans hcall.2⟩

/-- The counts are exact in every session that calls lead to: each cell has
one reference of the heap and one of each variable that holds it, and every
pointer that a variable holds is alive.  So a further call never finds the
heap in disorder, and further calls never make a string go away. -/
theorem references_exact (source : Source) (limits : Limits) (registry : Registry)
    (calls : List Call) :
    let session : Session Heap Pointer :=
      (start source limits registry Heap.empty).performAll calls
    let heap := session.store.pool
    (∀ p cell, heap.cell? p = some cell → cell.refs = 1 + p.holders session.scopes.contents) ∧
    (∀ held ∈ session.scopes.contents, ∀ p, held.value = .pointer p → heap.isAlive p = true) ∧
    (∀ (call : Call) error, fault? (call.run session) = some (.heap error) → ∃ p, error = .overflow p) ∧
    (∀ later p text, heap.text? p = some text →
      (session.performAll later).store.pool.text? p = some text) := by
  intro session heap
  have hsound : session.Sound :=
    (sound_performAll (sound_start source limits registry) calls).1
  refine ⟨hsound.accounts.refs, hsound.accounts.live, ?_, ?_⟩
  · intro call error hfault
    exact (safe_call call hsound).fault? hfault error rfl
  · intro later p text htext
    exact (sound_performAll hsound later).2 p text htext

end Session

end UnitScript
