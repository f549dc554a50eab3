import UnitScript.Proofs.Session.Capacity
import UnitScript.Proofs.Session.Inline

/-!
# The heap does not show

A script that is run with the heap does what it does when its values carry
their strings: it displays the same lines, logs the same problems, stops with
the same fault and leaves the same variables.

* `Session.inline` replaces the pointers of a session by their texts.
* `Mirrors` says that an operation does the same to both sessions, as long as
  no count is at its greatest.  `Mirrors.bind` composes it.
* `mirrors_exec` and `mirrors_execAll` are the results about statements.
* `runAll_inline` and `snapshot_inline` carry them to a whole run.
-/

namespace UnitScript.Session

variable {α α' β β' : Type} {f : Pointer → String}

/-- The session with every pointer replaced by its text. -/
def inline (f : Pointer → String) (session : Session Heap Pointer) : Session Unit String where
  source := session.source
  limits := session.limits
  registry := session.registry
  scopes := session.scopes.map f
  store := session.store.inline
  steps := session.steps
  output := session.output
  dropped := session.dropped

/-- The result with its value and its session replaced. -/
def inlined (f : Pointer → String) (g : α → α') :
    EStateM.Result Fault (Session Heap Pointer) α → EStateM.Result Fault (Session Unit String) α'
  | .ok value session => .ok (g value) (session.inline f)
  | .error fault session => .error fault (session.inline f)

/-- A result that was reached from the session `before` keeps its strings and
has the other result as its image, `f` being the text of a pointer. -/
def Mirrors (f : Pointer → String) (g : α → α') (before : Session Heap Pointer)
    (result : EStateM.Result Fault (Session Heap Pointer) α)
    (image : EStateM.Result Fault (Session Unit String) α') : Prop :=
  before.store.pool.Keeps (final result).store.pool ∧
    ((final result).store.pool.Reads f → Fits result → image = inlined f g result)

theorem mirrors_pure (session : Session Heap Pointer) (g : α → α') (value : α) :
    Mirrors f g session ((pure value : Run Heap Pointer α) session)
      ((pure (g value) : Run Unit String α') (session.inline f)) :=
  ⟨.refl _, fun _ _ => rfl⟩

/-- Sequences mirror each other if their parts do. -/
theorem Mirrors.bind {session : Session Heap Pointer} {m : Run Heap Pointer α}
    {m' : Run Unit String α'} {next : α → Run Heap Pointer β} {next' : α' → Run Unit String β'}
    {g : α → α'} {g' : β → β'} (hm : Mirrors f g session (m session) (m' (session.inline f)))
    (hnext : ∀ value session', m session = .ok value session' →
      Mirrors f g' session' (next value session') (next' (g value) (session'.inline f))) :
    Mirrors f g' session ((m >>= next) session) ((m' >>= next') (session.inline f)) := by
  rw [bind_eq, bind_eq]
  cases hresult : m session with
  | error fault session' =>
    rw [hresult] at hm
    refine ⟨hm.1, fun hreads hfits => ?_⟩
    rw [hm.2 hreads hfits]
    rfl
  | ok value session' =>
    have hlast := hnext value session' hresult
    rw [hresult] at hm
    refine ⟨hm.1.trans hlast.1, fun hreads hfits => ?_⟩
    rw [hm.2 (hreads.of_keeps hlast.1) (fits_ok _ _)]
    exact hlast.2 hreads hfits

/-! ## The steps of an operation -/

theorem mirrors_tick_bind {session : Session Heap Pointer} {next : Unit → Run Heap Pointer α}
    {next' : Unit → Run Unit String α'} {g : α → α'}
    (hnext : Mirrors f g session.ticked (next () session.ticked)
      (next' () (session.ticked.inline f))) :
    Mirrors f g session ((tick >>= next) session) ((tick >>= next') (session.inline f)) := by
  rw [tick_bind, tick_bind]
  change Mirrors f g session _ (if session.limits.steps < session.steps + 1 then _ else _)
  split
  · exact ⟨.refl _, fun _ _ => rfl⟩
  · exact hnext

theorem mirrors_emit (session : Session Heap Pointer) (line : String) :
    Mirrors f id session (emit line session) (emit line (session.inline f)) := by
  unfold emit
  change Mirrors f id session _ (if session.output.size < session.limits.lines then _ else _)
  split <;> exact ⟨.refl _, fun _ _ => rfl⟩

theorem mirrors_openScope (session : Session Heap Pointer) :
    Mirrors f id session (openScope session) (openScope (session.inline f)) :=
  ⟨.refl _, fun _ _ => rfl⟩

/-- Evaluations that mirror each other do so in a session. -/
theorem mirrors_evaluating (session : Session Heap Pointer) {g : α → α'}
    (eval : Context Pointer → Eval Heap α) (eval' : Context String → Eval Unit α')
    (h : Eval.Mirrors f g session.store.pool (eval session.context session.store)
      (eval' (session.context.map f) session.store.inline)) :
    Mirrors f g session (evaluating eval session) (evaluating eval' (session.inline f)) := by
  unfold evaluating
  cases hresult : eval session.context session.store with
  | ok value store =>
    rw [hresult] at h
    refine ⟨h.1, fun hreads _ => ?_⟩
    have himage : eval' (session.inline f).context (session.inline f).store = _ := h.2 hreads
    rw [himage]
    rfl
  | error fault store =>
    rw [hresult] at h
    refine ⟨h.1, fun hreads _ => ?_⟩
    have himage : eval' (session.inline f).context (session.inline f).store = _ := h.2 hreads
    rw [himage]
    rfl

/-- Nothing is noted about strings that are not kept anywhere. -/
theorem retain_inline (value : Value String) (session : Session Unit String) :
    retain value session = .ok () session := by
  cases value <;> rfl

theorem release_inline (value : Value String) (session : Session Unit String) :
    release value session = .ok () session := by
  cases value <;> rfl

theorem releaseAll_inline (closed : List (Variable String)) (session : Session Unit String) :
    releaseAll closed session = .ok () session := by
  induction closed with
  | nil => rfl
  | cons held later ih =>
    simp only [releaseAll, bind, EStateM.bind, release_inline, ih]

theorem closeScope_inline (session : Session Unit String) :
    closeScope session = .ok () { session with scopes := session.scopes.closeScope.2 } := by
  unfold closeScope
  rcases hlevels : session.scopes.levels with _ | ⟨inner, _ | ⟨outer, rest⟩⟩
  · simp only [Scopes.closeScope, hlevels]
  · simp only [Scopes.closeScope, hlevels]
  · simp only [Scopes.closeScope, hlevels, releaseAll_inline]

theorem mirrors_closeScope {session : Session Heap Pointer} (hsound : session.Sound) :
    Mirrors f id session (closeScope session) (closeScope (session.inline f)) := by
  obtain ⟨pool, heq, hkeeps, _⟩ := closeScope_spec session hsound
  rw [heq, closeScope_inline]
  refine ⟨hkeeps, fun _ _ => ?_⟩
  change EStateM.Result.ok () { session.inline f with
    scopes := (session.scopes.map f).closeScope.2 } = _
  rw [Scopes.closeScope_map]
  rfl

/-- What is done in any case is mirrored if the body and it are. -/
theorem mirrors_thenAlways {session : Session Heap Pointer} {body close : Run Heap Pointer Unit}
    {body' close' : Run Unit String Unit}
    (hbody : Mirrors f id session (body session) (body' (session.inline f)))
    (hclose : Mirrors f id (final (body session)) (close (final (body session)))
      (close' ((final (body session)).inline f)))
    (hfits : Fits (close (final (body session)))) :
    Mirrors f id session (thenAlways body close session)
      (thenAlways body' close' (session.inline f)) := by
  have hkeeps : (final (body session)).store.pool.Keeps
      (final (thenAlways body close session)).store.pool := by
    rw [final_thenAlways]
    exact hclose.1
  refine ⟨hbody.1.trans hkeeps, fun hreads hwhole => ?_⟩
  have hstopped : Fits (body session) := by
    intro p hp
    apply hwhole p
    rw [fault?_thenAlways, hp]
    rfl
  have hfirst := hbody.2 (hreads.of_keeps hkeeps) hstopped
  have hlast := hclose.2 (by rwa [final_thenAlways] at hreads) hfits
  unfold thenAlways
  rw [hfirst]
  cases hresult : body session with
  | ok value session' =>
    rw [hresult] at hlast
    exact hlast
  | error fault session' =>
    rw [hresult] at hlast
    simp only [inlined]
    simp only [final] at hlast
    rw [hlast]
    cases close session' <;> rfl

/-! ## Assignment -/

/-- A variable is put into the innermost scope. -/
theorem keep_inline (session : Session Unit String) {scope : Scope String}
    {outer : List (Scope String)} (hlevels : session.scopes.levels = scope :: outer)
    (name : String) (held : Variable String) :
    keep name held session =
      .ok () { session with scopes := ⟨scope.insert name held :: outer⟩ } := by
  have hdeclare : declare name held session =
      .ok (scope.get? name) { session with scopes := ⟨scope.insert name held :: outer⟩ } := by
    simp only [declare, Scopes.declare, hlevels]
  simp only [keep, bind, EStateM.bind, retain_inline, hdeclare]
  cases scope.get? name with
  | none => rfl
  | some replaced => exact release_inline replaced.value _

theorem mirrors_assign {session : Session Heap Pointer} (hsound : session.Sound) (name : String)
    (e : Expr) :
    Mirrors f (Value.map f) session (assign name e session) (assign name e (session.inline f)) := by
  have heval : Eval.Mirrors f (Evaluated.map f) session.store.pool _ _ :=
    Eval.mirrors_expr session.context e session.store hsound.accounts
  obtain ⟨scope, outer, hlevels⟩ := List.exists_cons_of_ne_nil hsound.opened
  have hlevels' : (session.inline f).scopes.levels =
      scope.map (Variable.map f) :: outer.map (Table.map (Variable.map f)) := by
    change session.scopes.levels.map _ = _
    rw [hlevels, List.map_cons]
  have hprevious : ((scope.map (Variable.map f)).get? name).bind (·.unit) =
      (scope.get? name).bind (·.unit) := by
    rw [Table.get?_map]
    cases scope.get? name <;> rfl
  rw [assign_eq (session.inline f) name e hlevels',
    show (session.inline f).context = session.context.map f from rfl,
    show (session.inline f).store = session.store.inline from rfl]
  rcases assign_spec session hsound name e with
    ⟨fault, store, hresult, heq⟩ | ⟨evaluated, store, scope', outer', hopened, hresult, hstored⟩
  · rw [hresult] at heval
    rw [heq]
    refine ⟨heval.1, fun hreads _ => ?_⟩
    rw [heval.2 hreads]
    rfl
  · obtain ⟨rfl, rfl⟩ : scope = scope' ∧ outer = outer' :=
      List.cons.inj (hlevels.symm.trans hopened)
    rw [hresult] at heval
    rcases hstored with ⟨p, heq, _⟩ | ⟨pool, heq, hkeeps, _⟩
    · rw [heq]
      exact ⟨heval.1, fun _ hfits => absurd rfl (hfits p)⟩
    · rw [heq]
      refine ⟨heval.1.trans hkeeps, fun hreads _ => ?_⟩
      rw [heval.2 (hreads.of_keeps hkeeps)]
      simp only [Eval.inlined, hprevious, Evaluated.settle_map, bind, EStateM.bind]
      generalize evaluated.settle name ((scope.get? name).bind (·.unit)) = settled
      have hkeep := keep_inline ((session.inline f).noted store.inline e.span settled.2)
        hlevels' name (settled.1.map f)
      simp only [hkeep]
      rw [← Table.map_insert]
      rfl

/-! ## Statements -/

mutual

/-- A statement does the same whether strings are kept in the heap or in the
values. -/
theorem mirrors_exec (statement : Stmt) {session : Session Heap Pointer}
    (hsound : session.Sound) :
    Mirrors f id session (exec statement session) (exec statement (session.inline f)) := by
  have hcounted : session.ticked.Sound := ⟨hsound.accounts, hsound.opened⟩
  cases statement with
  | assign target value span =>
    unfold exec
    refine mirrors_tick_bind ?_
    refine (mirrors_assign hcounted target.text value).bind fun _ session' _ => ?_
    exact mirrors_pure session' id ()
  | display value =>
    unfold exec
    refine mirrors_tick_bind ?_
    have hrender := mirrors_evaluating session.ticked (fun ctx => Eval.render ctx value)
      (fun ctx => Eval.render ctx value)
      (Eval.mirrors_render (f := f) session.context value session.store hsound.accounts)
    exact hrender.bind fun line session' _ => mirrors_emit session' line
  | block body span =>
    unfold exec
    refine mirrors_tick_bind ?_
    refine (mirrors_openScope session.ticked).bind fun _ opened hopened => ?_
    have hsafe := safe_openScope hcounted
    rw [hopened] at hsafe
    have hdone := (safe_execAll body hsafe.1).final.1
    obtain ⟨pool, hclosed, _, _⟩ := closeScope_spec _ hdone
    refine mirrors_thenAlways (mirrors_execAll body hsafe.1) (mirrors_closeScope hdone) ?_
    rw [hclosed]
    exact fits_ok _ _

/-- Statements do the same whether strings are kept in the heap or in the
values. -/
theorem mirrors_execAll (statements : List Stmt) {session : Session Heap Pointer}
    (hsound : session.Sound) :
    Mirrors f id session (execAll statements session)
      (execAll statements (session.inline f)) := by
  cases statements with
  | nil =>
    unfold execAll
    exact mirrors_pure session id ()
  | cons statement later =>
    unfold execAll
    refine (mirrors_exec statement hsound).bind fun _ session' hfirst => ?_
    have hsafe := safe_exec statement hsound
    rw [hfirst] at hsafe
    exact mirrors_execAll later hsafe.1

end

/-! ## A whole run -/

/-- A run does the same whether strings are kept in the heap or in the
values. -/
theorem runAll_inline {session : Session Heap Pointer} (hsound : session.Sound)
    (statements : List Stmt)
    (hfits : ∀ statement p, (runAll statements session).1 ≠ some (statement, .heap (.overflow p)))
    (hreads : (runAll statements session).2.store.pool.Reads f) :
    runAll statements (session.inline f) =
      ((runAll statements session).1, (runAll statements session).2.inline f) := by
  induction statements generalizing session with
  | nil => rfl
  | cons statement later ih =>
    have hsafe := (safe_exec statement hsound).final.1
    have hmirrors : Mirrors f id session _ _ := mirrors_exec statement hsound
    unfold runAll at hfits hreads ⊢
    cases hresult : exec statement session with
    | ok _ after =>
      rw [hresult] at hsafe hmirrors hfits hreads
      have hfirst := hmirrors.2 (hreads.of_keeps (sound_runAll hsafe later).2) (fits_ok _ _)
      rw [hfirst]
      exact ih hsafe hfits hreads
    | error fault after =>
      rw [hresult] at hmirrors hfits hreads
      have hfirst := hmirrors.2 hreads fun p hp => by
        cases hp
        exact hfits statement p rfl
      rw [hfirst]
      rfl

theorem snapshotOf_inline {heap : Heap} (hreads : heap.Reads f) (name : String)
    {held : Variable Pointer} (hlive : held.value.Live heap) :
    snapshotOf () name (held.map f) = snapshotOf heap name held := by
  have hvalue : (held.map f).value = held.value.map f := rfl
  unfold snapshotOf
  cases hshown : held.value with
  | pointer p =>
    obtain ⟨text, htext⟩ := Heap.isAlive_iff_text?.1 (hlive p hshown)
    rw [hshown] at hvalue
    simp only [hvalue, Value.map, Heap.poolText_eq_ok htext, hreads p text htext]
    rfl
  | _ =>
    rw [hshown] at hvalue
    simp only [hvalue, Value.map]
    rfl

/-- The variables are displayed in the same way whether strings are kept in the
heap or in the values. -/
theorem snapshot_inline {session : Session Heap Pointer} (hsound : session.Sound)
    (hreads : session.store.pool.Reads f) : (session.inline f).snapshot = session.snapshot := by
  have hlast : (session.inline f).scopes.levels.getLast? =
      session.scopes.levels.getLast?.map (Table.map (Variable.map f)) := List.getLast?_map
  unfold snapshot Scopes.globalScope
  rw [hlast]
  cases hglobal : session.scopes.levels.getLast? with
  | none => rfl
  | some scope =>
    change (scope.entries.map _).map _ = scope.entries.map _
    rw [List.map_map]
    apply List.map_congr_left
    intro entry hentry
    have hmem : entry.2 ∈ session.scopes.contents :=
      List.mem_flatMap.2 ⟨scope, List.mem_of_getLast? hglobal, List.mem_map_of_mem hentry⟩
    exact snapshotOf_inline hreads entry.1 (hsound.accounts.live entry.2 hmem)

/-- The heap does not show.  A program that is run with the heap has the same
outcome as one whose values carry their strings: the same lines, problems,
variables and steps.  It stops at the same statement with the same fault, and
as many lines are not kept.  The counts must not reach their greatest value:
a string has a reference of the heap and one of each variable, and a string
that is assigned to a variable holding it has one more for a moment. -/
theorem heap_invisible (source : Source) (limits : Limits) (registry : Registry)
    (before : Diagnostics) (statements : List Stmt)
    (h : Stmt.mostVariables statements + 1 < Heap.maxRefs) :
    let counted : Session Heap Pointer := start source limits registry Heap.empty
    let plain : Session Unit String := start source limits registry ()
    outcome statements before counted = outcome statements before plain ∧
      (runAll statements counted).1 = (runAll statements plain).1 ∧
      (runAll statements counted).2.dropped = (runAll statements plain).2.dropped := by
  intro counted plain
  have hsound : counted.Sound := sound_start source limits registry
  have hfits := fits_runAll hsound (room_start source limits registry h) statements
    fun _ => planned_of_mem
  -- the heap at the end has every string of the run, so it gives all texts
  let read : Pointer → String := fun p =>
    ((runAll statements counted).2.store.pool.text? p).getD ""
  have hreads : (runAll statements counted).2.store.pool.Reads read := by
    intro p text htext
    simp only [read, htext, Option.getD_some]
  have hrun : runAll statements plain =
      ((runAll statements counted).1, (runAll statements counted).2.inline read) :=
    runAll_inline hsound statements hfits hreads
  have hsnapshot := snapshot_inline (sound_runAll hsound statements).1 hreads
  refine ⟨?_, ?_, ?_⟩
  · unfold outcome
    rw [hrun]
    simp only [hsnapshot]
    rfl
  · rw [hrun]
  · rw [hrun]
    rfl

/-- Strings that are joined in a block and compared outside it. -/
theorem heap_invisible_joined :
    let here : Span := .point .origin
    let joined : Expr := .binary (.arith .add) (.identifier "a" here) (.literal (.string "y") here) here
    let statements : List Stmt :=
      [.assign ⟨"a", here⟩ (.literal (.string "x") here) here,
        .block [.assign ⟨"b", here⟩ joined here, .display (.identifier "b" here)] here,
        .display (.binary .eq joined (.literal (.string "xy") here) here)]
    Stmt.mostVariables statements + 1 < Heap.maxRefs ∧
      outcome statements ∅ (start ⟨"s", ""⟩ {} Registry.standard Heap.empty : Session Heap Pointer) =
        outcome statements ∅ (start ⟨"s", ""⟩ {} Registry.standard () : Session Unit String) := by
  intro here joined statements
  have hroom : Stmt.mostVariables statements + 1 < Heap.maxRefs := by decide
  exact ⟨hroom, (heap_invisible _ _ _ _ statements hroom).1⟩

end UnitScript.Session
