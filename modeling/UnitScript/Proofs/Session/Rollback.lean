import UnitScript.Outcome.Basic
import UnitScript.Proofs.Session.References

/-!
# What a statement leaves behind

A statement that stops leaves every variable as it was, and so does a block,
whether it stops or not.  An assignment changes the variable it names and no
other.

* `assign_cases` says all that an assignment does to the scopes.
* `tail_exec` and `tail_execAll` say that statements work in the innermost
  scope only.  This is what makes closing a block undo it: `scopes_block`.
* `scopes_of_exec_error` is the result about statements that stop, and
  `snapshot_runAll_of_error` the one about a run that stops.
* `failures_leave_variables` is the whole statement, for every reachable
  session.

The counts need no argument of their own.  A session with the same variables
has the same account, so by `Accounts.grows` the strings it had keep their
counts and the ones it made have the reference of the heap only.
-/

namespace UnitScript.Session

variable {α : Type}

/-! ## Assignments -/

/-- An assignment stops and leaves the scopes, or it puts one variable into
the innermost scope. -/
theorem assign_cases {session : Session Heap Pointer} (hsound : session.Sound) (name : String)
    (e : Expr) :
    (∃ fault after, assign name e session = .error fault after ∧ after.scopes = session.scopes) ∨
      ∃ value after scope outer held, session.scopes.levels = scope :: outer ∧
        assign name e session = .ok value after ∧
        after.scopes = ⟨scope.insert name held :: outer⟩ := by
  rcases assign_spec session hsound name e with
    ⟨fault, store, _, heq⟩ | ⟨evaluated, store, scope, outer, hlevels, _, hstored⟩
  · exact .inl ⟨fault, _, heq, rfl⟩
  · rcases hstored with ⟨p, heq, _⟩ | ⟨pool, heq, _, _⟩
    · exact .inl ⟨_, _, heq, rfl⟩
    · exact .inr ⟨_, _, scope, outer, _, hlevels, heq, rfl⟩

/-- An assignment that succeeds changes the variable it names, in the
innermost scope, and no other. -/
theorem exec_assign_ok {session after : Session Heap Pointer} (hsound : session.Sound)
    {target : Name} {value : Expr} {span : Span}
    (h : exec (.assign target value span) session = .ok () after) :
    ∃ scope scope' outer, session.scopes.levels = scope :: outer ∧
      after.scopes.levels = scope' :: outer ∧
      ∀ name, name ≠ target.text → scope'.get? name = scope.get? name := by
  have hcounted : session.ticked.Sound := ⟨hsound.accounts, hsound.opened⟩
  unfold exec at h
  rw [tick_bind] at h
  split at h
  · cases h
  · rw [bind_eq] at h
    rcases assign_cases hcounted target.text value with
      ⟨_, _, heq, _⟩ | ⟨_, stored, scope, outer, held, hlevels, heq, hscopes⟩
    · rw [heq] at h
      cases h
    · rw [heq] at h
      cases h
      refine ⟨scope, scope.insert target.text held, outer, hlevels, by rw [hscopes], ?_⟩
      intro name hname
      rw [Table.get?_insert, if_neg hname]

/-! ## Blocks and statements -/

/-- Displaying a value leaves the scopes as they were. -/
theorem scopes_display {π ρ : Type} [StringPool π ρ] [DecidableEq ρ] [ToString ρ] (value : Expr)
    (session : Session π ρ) : (final (exec (.display value) session)).scopes = session.scopes := by
  unfold exec
  rw [tick_bind]
  split
  · rfl
  · rw [final_bind, render, evaluating]
    cases Eval.render session.ticked.context value session.ticked.store with
    | ok line store =>
      simp only [emit]
      split <;> rfl
    | error fault store => rfl

/-- What lies under the innermost scope is left when that one is closed. -/
theorem closeScope_of_tail {ρ : Type} {scopes outer : Scopes ρ}
    (htail : scopes.levels.tail = outer.levels) (hopened : outer.levels ≠ []) :
    scopes.closeScope.2 = outer := by
  obtain ⟨levels⟩ := scopes
  obtain ⟨outerLevels⟩ := outer
  simp only at htail hopened
  rcases levels with _ | ⟨inner, _ | ⟨next, rest⟩⟩
  · exact absurd htail.symm hopened
  · exact absurd htail.symm hopened
  · rw [← htail]
    rfl

/-- A block leaves the scopes if its body works in the innermost scope only. -/
theorem scopes_block_of_tail {body : List Stmt} {session : Session Heap Pointer}
    (hsound : session.Sound)
    (hbody : ∀ {opened : Session Heap Pointer}, opened.Sound →
      (final (execAll body opened)).scopes.levels.tail = opened.scopes.levels.tail) (span : Span) :
    (final (exec (.block body span) session)).scopes = session.scopes := by
  unfold exec
  rw [tick_bind]
  split
  · rfl
  · change (final (thenAlways (execAll body) closeScope
      { session.ticked with scopes := session.scopes.openScope })).scopes = session.scopes
    rw [final_thenAlways]
    have hopened : Sound { session.ticked with scopes := session.scopes.openScope } :=
      ⟨hsound.accounts, nofun⟩
    have hdone := (safe_execAll body hopened).final.1
    have htail := hbody hopened
    obtain ⟨pool, heq, _, _⟩ := closeScope_spec _ hdone
    rw [heq]
    exact closeScope_of_tail htail hsound.opened

mutual

/-- A statement works in the innermost scope only. -/
theorem tail_exec (statement : Stmt) {session : Session Heap Pointer} (hsound : session.Sound) :
    (final (exec statement session)).scopes.levels.tail = session.scopes.levels.tail := by
  cases statement with
  | assign target value span =>
    have hcounted : session.ticked.Sound := ⟨hsound.accounts, hsound.opened⟩
    unfold exec
    rw [tick_bind]
    split
    · rfl
    · rw [final_bind]
      rcases assign_cases hcounted target.text value with
        ⟨fault, after, heq, hscopes⟩ | ⟨_, after, scope, outer, held, hlevels, heq, hscopes⟩
      · rw [heq]
        exact congrArg (·.levels.tail) hscopes
      · rw [heq]
        change after.scopes.levels.tail = session.ticked.scopes.levels.tail
        rw [hscopes, hlevels]
        rfl
  | display value => rw [scopes_display]
  | block body span => rw [scopes_block_of_tail hsound (tail_execAll body) span]

/-- Statements work in the innermost scope only. -/
theorem tail_execAll (statements : List Stmt) {session : Session Heap Pointer}
    (hsound : session.Sound) :
    (final (execAll statements session)).scopes.levels.tail = session.scopes.levels.tail := by
  cases statements with
  | nil =>
    unfold execAll
    rfl
  | cons statement later =>
    have hfirst := tail_exec statement hsound
    have hsafe := (safe_exec statement hsound).final.1
    unfold execAll
    rw [final_bind]
    cases hresult : exec statement session with
    | ok _ after =>
      rw [hresult] at hfirst hsafe
      exact (tail_execAll later hsafe).trans hfirst
    | error _ after =>
      rw [hresult] at hfirst
      exact hfirst

end

/-- A block leaves the scopes as they were, whether it stops or not. -/
theorem scopes_block {session : Session Heap Pointer} (hsound : session.Sound) (body : List Stmt)
    (span : Span) : (final (exec (.block body span) session)).scopes = session.scopes :=
  scopes_block_of_tail hsound (tail_execAll body) span

/-- A statement that stops leaves the scopes as they were. -/
theorem scopes_of_exec_error {session after : Session Heap Pointer} (hsound : session.Sound)
    {statement : Stmt} {fault : Fault} (h : exec statement session = .error fault after) :
    after.scopes = session.scopes := by
  cases statement with
  | assign target value span =>
    have hcounted : session.ticked.Sound := ⟨hsound.accounts, hsound.opened⟩
    unfold exec at h
    rw [tick_bind] at h
    split at h
    · cases h
      rfl
    · rw [bind_eq] at h
      rcases assign_cases hcounted target.text value with
        ⟨_, stopped, heq, hscopes⟩ | ⟨_, _, _, _, _, _, heq, _⟩
      · rw [heq] at h
        cases h
        exact hscopes
      · rw [heq] at h
        cases h
  | display value =>
    have hscopes := scopes_display value session
    rw [h] at hscopes
    exact hscopes
  | block body span =>
    have hscopes := scopes_block hsound body span
    rw [h] at hscopes
    exact hscopes

/-- A statement leaves a heap with the counts it found if it leaves the
variables it found. -/
theorem grows_exec {session : Session Heap Pointer} (hsound : session.Sound) (statement : Stmt)
    (hscopes : (final (exec statement session)).scopes = session.scopes) :
    session.store.pool.Grows (final (exec statement session)).store.pool := by
  obtain ⟨hafter, hkeeps⟩ := (safe_exec statement hsound).final
  have haccounts := hafter.accounts
  rw [hscopes] at haccounts
  exact hsound.accounts.grows haccounts hkeeps

/-! ## A run that stops -/

/-- A variable is displayed in the same way as long as its string is kept. -/
theorem snapshotOf_eq {before after : Heap} (hkeeps : before.Keeps after) {held : Variable Pointer}
    (hlive : held.value.Live before) (name : String) :
    snapshotOf after name held = snapshotOf before name held := by
  unfold snapshotOf
  cases hvalue : held.value with
  | pointer p =>
    obtain ⟨text, htext⟩ := Heap.isAlive_iff_text?.1 (hlive p hvalue)
    simp only [Heap.poolText_eq_ok htext, Heap.poolText_eq_ok (hkeeps p text htext)]
  | _ => rfl

/-- The same variables are displayed in the same way as long as their strings
are kept. -/
theorem snapshot_eq {session after : Session Heap Pointer} (hsound : session.Sound)
    (hscopes : after.scopes = session.scopes)
    (hkeeps : session.store.pool.Keeps after.store.pool) : after.snapshot = session.snapshot := by
  unfold snapshot
  rw [hscopes, Scopes.globalScope]
  cases hlast : session.scopes.levels.getLast? with
  | none => rfl
  | some scope =>
    apply List.map_congr_left
    intro entry hentry
    have hmem : entry.2 ∈ session.scopes.contents :=
      List.mem_flatMap.2 ⟨scope, List.mem_of_getLast? hlast, List.mem_map_of_mem hentry⟩
    exact snapshotOf_eq hkeeps (hsound.accounts.live entry.2 hmem) entry.1

/-- A run keeps a session sound, and no string goes away. -/
theorem sound_runAll {session : Session Heap Pointer} (hsound : session.Sound)
    (statements : List Stmt) :
    (runAll statements session).2.Sound ∧
      session.store.pool.Keeps (runAll statements session).2.store.pool := by
  induction statements generalizing session with
  | nil => exact ⟨hsound, .refl _⟩
  | cons statement later ih =>
    have hafter := (safe_exec statement hsound).final
    unfold runAll
    cases hresult : exec statement session with
    | ok _ after =>
      rw [hresult] at hafter
      obtain ⟨hlast, hkeeps⟩ := ih hafter.1
      exact ⟨hlast, hafter.2.trans hkeeps⟩
    | error fault after =>
      rw [hresult] at hafter
      exact hafter

/-- A run goes as far as its statements succeed and stops with the next one. -/
theorem runAll_of_error {π ρ : Type} [StringPool π ρ] [DecidableEq ρ] [ToString ρ]
    {session reached after : Session π ρ} {first : List Stmt} {statement : Stmt} {fault : Fault}
    (hfirst : runAll first session = (none, reached))
    (hfault : exec statement reached = .error fault after) (later : List Stmt) :
    runAll (first ++ statement :: later) session = (some (statement, fault), after) := by
  induction first generalizing session with
  | nil =>
    obtain rfl : session = reached := congrArg Prod.snd hfirst
    simp only [List.nil_append, runAll, hfault]
  | cons head rest ih =>
    rw [List.cons_append, runAll]
    rw [runAll] at hfirst
    cases hresult : exec head session with
    | ok _ next =>
      rw [hresult] at hfirst
      exact ih hfirst
    | error _ next =>
      rw [hresult] at hfirst
      cases hfirst

/-- When a statement stops a run, the variables are those that the statements
before it left. -/
theorem snapshot_runAll_of_error {session reached after : Session Heap Pointer}
    (hsound : session.Sound) {first : List Stmt} {statement : Stmt} {fault : Fault}
    (hfirst : runAll first session = (none, reached))
    (hfault : exec statement reached = .error fault after) (later : List Stmt) :
    (runAll (first ++ statement :: later) session).2.snapshot = reached.snapshot := by
  have hreached : reached.Sound := by
    have hrun := (sound_runAll hsound first).1
    rw [hfirst] at hrun
    exact hrun
  have hafter := (safe_exec statement hreached).final
  rw [hfault] at hafter
  rw [runAll_of_error hfirst hfault later]
  exact snapshot_eq hreached (scopes_of_exec_error hreached hfault) hafter.2

/-- A script that is executed shows the variables that its run leaves. -/
theorem globals_run {source : Source} {limits : Limits} {program : Program}
    (hprogram : (Program.parse source source.lex.tokens).program = some program)
    (hexecuted : (source.run limits).executed = true) :
    (source.run limits).globals =
      (runAll program.statements (start source limits Registry.standard Heap.empty)).2.snapshot := by
  unfold Source.run at hexecuted ⊢
  simp only [hprogram] at hexecuted ⊢
  split at hexecuted
  · cases hexecuted
  · next herrors =>
      rw [if_neg herrors]
      rfl

/-- In every session that calls lead to, a statement that stops and a block in
any case leave all variables as they were, with the counts of their strings;
an assignment that succeeds changes the variable it names and no other.  So
when a statement stops a script, the global variables are those that the
statements before it left. -/
theorem failures_leave_variables (source : Source) (limits : Limits) (registry : Registry)
    (calls : List Call) :
    let session : Session Heap Pointer :=
      (start source limits registry Heap.empty).performAll calls
    (∀ statement fault after, exec statement session = .error fault after →
      after.scopes = session.scopes ∧ session.store.pool.Grows after.store.pool) ∧
    (∀ body span, let after := final (exec (.block body span) session)
      after.scopes = session.scopes ∧ session.store.pool.Grows after.store.pool) ∧
    (∀ target value span after, exec (.assign target value span) session = .ok () after →
      ∃ scope scope' outer, session.scopes.levels = scope :: outer ∧
        after.scopes.levels = scope' :: outer ∧
        ∀ name, name ≠ target.text → scope'.get? name = scope.get? name) ∧
    (∀ program first statement later reached fault after,
      (Program.parse source source.lex.tokens).program = some program →
      (source.run limits).executed = true →
      program.statements = first ++ statement :: later →
      runAll first (start source limits Registry.standard Heap.empty) = (none, reached) →
      exec statement reached = .error fault after →
      (source.run limits).globals = reached.snapshot) := by
  intro session
  have hsound : session.Sound :=
    (sound_performAll (sound_start source limits registry) calls).1
  refine ⟨?_, ?_, ?_, ?_⟩
  · intro statement fault after hfault
    have hscopes := scopes_of_exec_error hsound hfault
    have hgrows := grows_exec hsound statement (by rw [hfault]; exact hscopes)
    rw [hfault] at hgrows
    exact ⟨hscopes, hgrows⟩
  · intro body span
    have hscopes := scopes_block hsound body span
    exact ⟨hscopes, grows_exec hsound (.block body span) hscopes⟩
  · intro target value span after hassigned
    exact exec_assign_ok hsound hassigned
  · intro program first statement later reached fault after hprogram hexecuted hsplit hfirst hfault
    rw [globals_run hprogram hexecuted, hsplit]
    exact snapshot_runAll_of_error (sound_start source limits Registry.standard) hfirst hfault later

end UnitScript.Session
