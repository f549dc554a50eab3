import UnitScript.Proofs.Session.Calls
import UnitScript.Proofs.Session.Similarity
import UnitScript.Proofs.Session.UnitErrors

/-!
# Magnitudes are invisible to dimensional analysis

Two sessions that differ only in the numbers, truth values and characters that
their variables hold do the same: what is executed in them stops with the same
fault or goes on in both, logs the same, displays as many lines, and leaves
sessions that again differ in such contents only.

* `Matches` compares two results, `Twins` two computations; `Twins.bind`
  composes them, for evaluation and for sessions alike.
* `twins_expr` and `twins_render` are the results about expressions.
* `Session.Similar` is the relation on sessions.  Each operation has a lemma of
  its own up to `twins_exec` and `twins_run`.
* `magnitudes_invisible` is the whole statement, after any calls.
-/

namespace UnitScript

/-! ## Two computations side by side -/

section

variable {σ α β : Type} {S : σ → σ → Prop} {R : α → α → Prop}

/-- Two computations ended with related values or with the same fault, and in
related states. -/
inductive Matches (S : σ → σ → Prop) (R : α → α → Prop) :
    EStateM.Result Fault σ α → EStateM.Result Fault σ α → Prop
  | ok {x y : α} {s t : σ} (h : R x y) (hs : S s t) : Matches S R (.ok x s) (.ok y t)
  | error (fault : Fault) {s t : σ} (hs : S s t) : Matches S R (.error fault s) (.error fault t)

theorem Matches.imp {R' : α → α → Prop} (hR : ∀ x y, R x y → R' x y)
    {result result' : EStateM.Result Fault σ α} (h : Matches S R result result') :
    Matches S R' result result' := by
  cases h with
  | ok h hs => exact .ok (hR _ _ h) hs
  | error fault hs => exact .error fault hs

/-- Two computations match whenever they start in related states. -/
def Twins (S : σ → σ → Prop) (R : α → α → Prop) (m m' : EStateM Fault σ α) : Prop :=
  ∀ s t, S s t → Matches S R (m s) (m' t)

namespace Twins

theorem pure {x y : α} (h : R x y) : Twins S R (pure x) (pure y) := fun _ _ hs => .ok h hs

theorem throw (fault : Fault) : Twins S R (throw fault) (throw fault) :=
  fun _ _ hs => .error fault hs

theorem bind {R' : β → β → Prop} {m m' : EStateM Fault σ α} {next next' : α → EStateM Fault σ β}
    (hm : Twins S R m m') (hnext : ∀ x y, R x y → Twins S R' (next x) (next' y)) :
    Twins S R' (m >>= next) (m' >>= next') := by
  intro s t hs
  have hfirst := hm s t hs
  change Matches S R' (EStateM.bind m next s) (EStateM.bind m' next' t)
  unfold EStateM.bind
  generalize m s = result at hfirst ⊢
  generalize m' t = result' at hfirst ⊢
  cases hfirst with
  | ok h hs => exact hnext _ _ h _ _ hs
  | error fault hs => exact .error fault hs

/-- Without a difference in the states, a computation is its own twin. -/
theorem refl (hR : ∀ x, R x x) (m : EStateM Fault σ α) : Twins Eq R m m := by
  rintro s _ rfl
  cases m s with
  | ok x s' => exact .ok (hR x) rfl
  | error fault s' => exact .error fault rfl

end Twins

end

/-! ## Expressions -/

namespace Eval

variable {π ρ α : Type} {first second : Context ρ}

theorem twins_ofExcept {ε : Type} (fault : ε → Fault) {R : α → α → Prop} {x y : Except ε α}
    (h : Agree R x y) : Twins Eq R (ofExcept fault x : Eval π α) (ofExcept fault y) := by
  rintro s _ rfl
  cases h with
  | ok h => exact .ok h rfl
  | error e => exact .error (fault e) rfl

theorem twins_complain (hctx : first.Similar second) (complaints : List Complaint) :
    Twins Eq Eq (complain first complaints : Eval π Unit) (complain second complaints) := by
  unfold complain
  rw [hctx.source]
  exact .refl (fun _ => rfl) _

theorem twins_complainAt (hctx : first.Similar second) (span : Span) (problems : List Problem) :
    Twins Eq Eq (complainAt first span problems : Eval π Unit) (complainAt second span problems) :=
  twins_complain hctx _

variable [StringPool π ρ] [DecidableEq ρ]

/-- Operators do the same to similar operands.  Strings are similar only when
they are the same, so they are concatenated in both computations or in none. -/
theorem twins_binary (hctx : first.Similar second) (op : BinaryOp) (exponent : Expr) (span : Span)
    {lhs rhs lhs' rhs' : Evaluated ρ} (hlhs : lhs.Similar lhs') (hrhs : rhs.Similar rhs') :
    Twins Eq Evaluated.Similar (binary first op exponent span lhs rhs : Eval π (Evaluated ρ))
      (binary second op exponent span lhs' rhs') := by
  by_cases hconcat : ∃ a b, op = .arith .add ∧ lhs.value = .pointer a ∧ rhs.value = .pointer b
  · obtain ⟨a, b, rfl, ha, hb⟩ := hconcat
    rw [binary_concat first exponent span ha hb,
      binary_concat second exponent span (hlhs.value.eq_pointer ha) (hrhs.value.eq_pointer hb)]
    exact .refl Evaluated.Similar.refl _
  · have hconcat' : ∀ a b, op = .arith .add → lhs'.value = .pointer a →
        rhs'.value ≠ .pointer b :=
      fun a b hop ha hb =>
        hconcat ⟨a, b, hop, hlhs.value.symm.eq_pointer ha, hrhs.value.symm.eq_pointer hb⟩
    rw [binary_combine first exponent span fun a b hop ha hb => hconcat ⟨a, b, hop, ha, hb⟩,
      binary_combine second exponent span hconcat']
    refine (twins_ofExcept Fault.value (hlhs.combine op exponent hrhs)).bind ?_
    rintro ⟨x, problems⟩ ⟨y, _⟩ ⟨hxy, rfl⟩
    exact (twins_complainAt hctx span problems).bind fun _ _ _ => .pure hxy

/-- An expression does the same in similar contexts. -/
theorem twins_expr (hctx : first.Similar second) (e : Expr) :
    Twins Eq Evaluated.Similar (expr first e : Eval π (Evaluated ρ)) (expr second e) := by
  induction e with
  | literal value span =>
    refine (Twins.refl Value.Similar.refl (literal value)).bind fun v w hvalue => ?_
    exact .pure (Evaluated.similar_ofValue hvalue)
  | identifier name span =>
    unfold expr
    rcases rel_cases (hctx.scopes.lookup? name) with
      ⟨held, held', hheld, hheld', hsimilar⟩ | ⟨hnone, hnone'⟩
    · rw [hheld, hheld']
      exact .pure (Evaluated.similar_ofVariable hsimilar)
    · rw [hnone, hnone']
      exact .throw (.undefinedVariable name)
  | negate operand span ih =>
    exact ih.bind fun x y hxy => twins_ofExcept Fault.value hxy.negate
  | binary op left right span ihl ihr =>
    refine ihl.bind fun lhs lhs' hlhs => ?_
    exact ihr.bind fun rhs rhs' hrhs => twins_binary hctx op right span hlhs hrhs
  | cast value unit span ih =>
    rw [expr_cast, expr_cast, hctx.registry]
    refine (twins_complain hctx _).bind fun _ _ _ => ?_
    refine ih.bind fun x y hxy => ?_
    obtain ⟨hresult, hproblems⟩ :=
      hxy.cast (unit.evaluate second.registry).1 unit (hctx.binding? value)
    simp only [hproblems]
    exact (twins_complainAt hctx span _).bind fun _ _ _ => .pure hresult
  | paren inner span ih => exact ih

/-- An expression is displayed in similar contexts, or in neither.  A string is
the same in both; of anything else the texts can differ. -/
theorem twins_render [ToString ρ] (hctx : first.Similar second) (e : Expr) :
    Twins Eq (fun _ _ => True) (render first e : Eval π String) (render second e) := by
  refine (twins_expr hctx e).bind fun x y hxy => ?_
  rw [hctx.label? e hxy]
  cases hx : x.value with
  | pointer r =>
    rw [hxy.value.eq_pointer hx]
    exact .refl (fun _ => trivial) _
  | _ =>
    cases hy : y.value with
    | pointer r =>
      rw [hxy.value.symm.eq_pointer hy] at hx
      cases hx
    -- neither is a string, so both lines are made without a look into the pool
    | _ => cases second.label? e y <;> exact .pure trivial

end Eval

/-! ## Sessions -/

namespace Session

variable {π ρ α : Type} {a b : Session π ρ}

/-- The sessions have the same script, limits, units, strings and log, the same
counts of statements and of displayed lines, and the same scopes with similar
variables. -/
structure Similar (a b : Session π ρ) : Prop where
  source : a.source = b.source
  limits : a.limits = b.limits
  registry : a.registry = b.registry
  scopes : a.scopes.Similar b.scopes
  store : a.store = b.store
  steps : a.steps = b.steps
  kept : a.output.size = b.output.size
  dropped : a.dropped = b.dropped

/-- The fault that stopped two computations, and what they left. -/
theorem ending_of_matches {R : α → α → Prop}
    {result result' : EStateM.Result Fault (Session π ρ) α} (h : Matches Similar R result result') :
    fault? result = fault? result' ∧ (final result).Similar (final result') := by
  cases h with
  | ok _ hafter => exact ⟨rfl, hafter⟩
  | error fault hafter => exact ⟨rfl, hafter⟩

theorem Similar.context (h : a.Similar b) : a.context.Similar b.context :=
  ⟨h.source, h.registry, h.scopes⟩

theorem twins_evaluating {R : α → α → Prop} {eval eval' : Context ρ → Eval π α}
    (heval : ∀ first second, first.Similar second → Twins Eq R (eval first) (eval' second)) :
    Twins Similar R (evaluating eval) (evaluating eval') := by
  intro a b h
  have hresult := heval a.context b.context h.context a.store b.store h.store
  unfold evaluating
  generalize eval a.context a.store = result at hresult ⊢
  generalize eval' b.context b.store = result' at hresult ⊢
  cases hresult with
  | ok hxy hstore => exact .ok hxy { h with store := hstore }
  | error fault hstore => exact .error fault { h with store := hstore }

theorem twins_get : Twins Similar Similar (get : Run π ρ (Session π ρ)) get := fun _ _ h => .ok h h

theorem twins_ofExcept {ε : Type} (fault : ε → Fault) {R : α → α → Prop} {x y : Except ε α}
    (h : Agree R x y) : Twins Similar R (ofExcept fault x : Run π ρ α) (ofExcept fault y) := by
  intro a b hsimilar
  cases h with
  | ok h => exact .ok h hsimilar
  | error e => exact .error (fault e) hsimilar

theorem twins_tick : Twins Similar Eq (tick : Run π ρ Unit) tick := by
  intro a b h
  have hticked : Similar { a with steps := a.steps + 1 } { b with steps := b.steps + 1 } :=
    { h with steps := by simp only [h.steps] }
  unfold tick
  simp only [h.limits, h.steps] at hticked ⊢
  split
  · exact .error _ hticked
  · exact .ok rfl hticked

theorem twins_measure (unit : UnitExpr) :
    Twins Similar Eq (measure unit : Run π ρ Measure) (measure unit) := by
  refine twins_evaluating fun first second hctx => ?_
  rw [hctx.registry]
  exact (Eval.twins_complain hctx _).bind fun _ _ _ => .pure rfl

/-- Any lines are displayed or dropped together. -/
theorem twins_emit (line line' : String) :
    Twins Similar Eq (emit line : Run π ρ Unit) (emit line') := by
  intro a b h
  unfold emit
  by_cases hroom : b.output.size < b.limits.lines
  · rw [if_pos hroom, if_pos (by rw [h.limits, h.kept]; exact hroom)]
    exact .ok rfl { h with kept := by simp only [Array.size_push, h.kept] }
  · rw [if_neg hroom, if_neg (by rw [h.limits, h.kept]; exact hroom)]
    exact .ok rfl { h with dropped := by simp only [h.dropped] }

theorem twins_openScope : Twins Similar Eq (openScope : Run π ρ Unit) openScope :=
  fun _ _ h => .ok rfl { h with scopes := h.scopes.openScope }

theorem twins_declare (name : String) {held held' : Variable ρ} (hheld : held.Similar held') :
    Twins Similar (Option.Rel Variable.Similar) (declare name held : Run π ρ _)
      (declare name held') := by
  intro a b h
  have hdeclared := h.scopes.declare name hheld
  unfold declare
  generalize a.scopes.declare name held = result at hdeclared ⊢
  generalize b.scopes.declare name held' = result' at hdeclared ⊢
  cases hdeclared with
  | ok hxy => exact .ok hxy.1 { h with scopes := hxy.2 }
  | error e => exact .error (.scope e) h

/-- What is done in any case is done in both sessions, and a fault of the body
counts in both. -/
theorem twins_thenAlways {body body' close close' : Run π ρ Unit}
    (hbody : Twins Similar Eq body body') (hclose : Twins Similar Eq close close') :
    Twins Similar Eq (thenAlways body close) (thenAlways body' close') := by
  intro a b h
  have hfirst := hbody a b h
  unfold thenAlways
  generalize body a = result at hfirst ⊢
  generalize body' b = result' at hfirst ⊢
  cases hfirst with
  | ok _ hafter => exact hclose _ _ hafter
  | @error fault after after' hafter =>
    -- a fault of the closing part is lost in both, so only the session counts
    have hlast := hclose after after' hafter
    simp only
    generalize close after = closed at hlast ⊢
    generalize close' after' = closed' at hlast ⊢
    cases hlast with
    | ok _ hclosed => exact .error fault hclosed
    | error _ hclosed => exact .error fault hclosed

/-! ### Strings held by variables -/

theorem twins_changePool (change : π → Except Heap.Error π) :
    Twins Similar Eq (changePool change : Run π ρ Unit) (changePool change) := by
  intro a b h
  unfold changePool
  rw [h.store]
  cases change b.store.pool with
  | ok pool => exact .ok rfl { h with store := rfl }
  | error e => exact .error (.heap e) h

/-- What is noted about strings only is noted in both sessions or in none. -/
theorem twins_noting (change : ρ → π → Except Heap.Error π) {note : Value ρ → Run π ρ Unit}
    (hstring : ∀ r, note (.pointer r) = changePool (change r))
    (hother : ∀ v, (∀ r, v ≠ .pointer r) → note v = pure ()) {v w : Value ρ} (h : v.Similar w) :
    Twins Similar Eq (note v) (note w) := by
  rcases h.pointer_or_not with ⟨r, rfl, rfl⟩ | ⟨hv, hw⟩
  · rw [hstring r]
    exact twins_changePool (change r)
  · rw [hother v hv, hother w hw]
    exact .pure rfl

section

variable [StringPool π ρ]

theorem twins_retain {v w : Value ρ} (h : v.Similar w) :
    Twins Similar Eq (retain v : Run π ρ Unit) (retain w) := by
  refine twins_noting StringPool.retain (fun _ => rfl) ?_ h
  intro v hv
  cases v with
  | pointer r => exact absurd rfl (hv r)
  | _ => rfl

theorem twins_release {v w : Value ρ} (h : v.Similar w) :
    Twins Similar Eq (release v : Run π ρ Unit) (release w) := by
  refine twins_noting StringPool.release (fun _ => rfl) ?_ h
  intro v hv
  cases v with
  | pointer r => exact absurd rfl (hv r)
  | _ => rfl

theorem twins_releaseAll {closed closed' : List (Variable ρ)}
    (h : List.Forall₂ Variable.Similar closed closed') :
    Twins Similar Eq (releaseAll closed : Run π ρ Unit) (releaseAll closed') := by
  induction h with
  | nil => exact .pure rfl
  | cons hheld _ ih => exact (twins_release hheld.value).bind fun _ _ _ => ih

theorem twins_closeScope : Twins Similar Eq (closeScope : Run π ρ Unit) closeScope := by
  intro a b h
  obtain ⟨hclosed, hleft⟩ := h.scopes.closeScope
  unfold closeScope
  generalize a.scopes.closeScope = pair at hclosed hleft ⊢
  generalize b.scopes.closeScope = pair' at hclosed hleft ⊢
  obtain ⟨closed, scopes⟩ := pair
  obtain ⟨closed', scopes'⟩ := pair'
  rcases rel_cases hclosed with ⟨inner, inner', rfl, rfl, hinner⟩ | ⟨rfl, rfl⟩
  · exact twins_releaseAll hinner.values _ _ { h with scopes := hleft }
  · exact .ok rfl h

theorem twins_keep (name : String) {held held' : Variable ρ} (hheld : held.Similar held') :
    Twins Similar Eq (keep name held : Run π ρ Unit) (keep name held') := by
  refine (twins_retain hheld.value).bind fun _ _ _ => ?_
  refine (twins_declare name hheld).bind fun replaced replaced' hreplaced => ?_
  cases hreplaced with
  | some hsimilar => exact twins_release hsimilar.value
  | none => exact .pure rfl

end

/-! ### Statements -/

variable [StringPool π ρ] [DecidableEq ρ]

theorem twins_evaluated (e : Expr) :
    Twins Similar Evaluated.Similar (evaluating fun ctx => Eval.expr ctx e : Run π ρ _)
      (evaluating fun ctx => Eval.expr ctx e) :=
  twins_evaluating fun _ _ hctx => Eval.twins_expr hctx e

theorem twins_assign (name : String) (e : Expr) :
    Twins Similar Value.Similar (assign name e : Run π ρ (Value ρ)) (assign name e) := by
  refine (twins_evaluated e).bind fun x y hxy => ?_
  refine twins_get.bind fun a b h => ?_
  refine (twins_ofExcept Fault.scope h.scopes.current).bind fun scope scope' hscope => ?_
  -- the name had similar units before, so similar variables are stored
  have hprevious := Variable.Similar.units (hscope.get? name)
  obtain ⟨hheld, hproblems⟩ := hxy.settle name hprevious
  simp only [hproblems]
  refine (twins_evaluating fun _ _ hctx => Eval.twins_complainAt hctx e.span _).bind fun _ _ _ => ?_
  exact (twins_keep name hheld).bind fun _ _ _ => .pure hheld.value

variable [ToString ρ]

theorem twins_rendered (e : Expr) :
    Twins Similar (fun _ _ => True) (render e : Run π ρ String) (render e) :=
  twins_evaluating fun _ _ hctx => Eval.twins_render hctx e

mutual

/-- A statement does the same in similar sessions. -/
theorem twins_exec (statement : Stmt) :
    Twins Similar Eq (exec statement : Run π ρ Unit) (exec statement) := by
  cases statement with
  | assign target value span =>
    unfold exec
    refine twins_tick.bind fun _ _ _ => ?_
    exact (twins_assign target.text value).bind fun _ _ _ => .pure rfl
  | display value =>
    unfold exec
    refine twins_tick.bind fun _ _ _ => ?_
    exact (twins_rendered value).bind fun line line' _ => twins_emit line line'
  | block body span =>
    unfold exec
    refine twins_tick.bind fun _ _ _ => ?_
    refine twins_openScope.bind fun _ _ _ => ?_
    exact twins_thenAlways (twins_execAll body) twins_closeScope

/-- Statements do the same in similar sessions. -/
theorem twins_execAll (statements : List Stmt) :
    Twins Similar Eq (execAll statements : Run π ρ Unit) (execAll statements) := by
  cases statements with
  | nil =>
    unfold execAll
    exact .pure rfl
  | cons statement later =>
    unfold execAll
    exact (twins_exec statement).bind fun _ _ _ => twins_execAll later

end

/-- A call does the same in similar sessions. -/
theorem twins_run (call : Call) : Twins Similar Eq (call.run : Run π ρ Unit) call.run := by
  cases call with
  | exec statement => exact twins_exec statement
  | execProgram program => exact twins_execAll program.statements
  | assign name value => exact (twins_assign name value).bind fun _ _ _ => .pure rfl
  | evaluate value =>
    exact ((twins_evaluated value).bind fun _ _ hxy => .pure hxy.value).bind
      fun _ _ _ => .pure rfl
  | quantity value =>
    exact ((twins_evaluated value).bind fun _ _ hxy => .pure hxy.quantity).bind
      fun _ _ _ => .pure rfl
  | render value => exact (twins_rendered value).bind fun _ _ _ => .pure rfl
  | measure unit => exact (twins_measure unit).bind fun _ _ _ => .pure rfl
  | openScope => exact twins_openScope
  | closeScope => exact twins_closeScope

/-! ### Sessions that calls lead to -/

/-- Similar sessions stay similar under the same calls. -/
theorem similar_performAll (h : a.Similar b) (calls : List Call) :
    (a.performAll calls).Similar (b.performAll calls) := by
  induction calls generalizing a b with
  | nil => exact h
  | cons call later ih => exact ih (ending_of_matches (twins_run call a b h)).2

/-- What a statement adds to the log of a session it adds to that of a similar
one. -/
theorem same_complaints (h : a.Similar b) (statement : Stmt) :
    ∃ added, (final (exec statement a)).store.log = a.store.log.complainAll a.source added ∧
      (final (exec statement b)).store.log = b.store.log.complainAll b.source added := by
  obtain ⟨_, _, _, hgains⟩ := (reports_exec statement a).gains
  obtain ⟨added, hadded⟩ := hgains.toExtends
  have hafter := (ending_of_matches (twins_exec statement a b h)).2
  refine ⟨added, hadded, ?_⟩
  rw [← hafter.store, ← h.store, ← h.source]
  exact hadded

/-- Sessions that are similar do the same with a statement, whatever calls came
before it: it stops with the same fault or goes on in both, logs the same, and
leaves similar sessions, so that as many lines are displayed.  Every expression
has the same dimension in both, and is displayed with the same unit. -/
theorem magnitudes_invisible {a b : Session Heap Pointer} (h : a.Similar b) (calls : List Call)
    (statement : Stmt) :
    let first := a.performAll calls
    let second := b.performAll calls
    fault? (exec statement first) = fault? (exec statement second) ∧
    (∃ added,
      (final (exec statement first)).store.log = first.store.log.complainAll first.source added ∧
      (final (exec statement second)).store.log =
        second.store.log.complainAll second.source added) ∧
    (final (exec statement first)).Similar (final (exec statement second)) ∧
    ∀ e, Matches Eq
      (fun x y => x.quantity.map (·.dimension) = y.quantity.map (·.dimension) ∧
        first.context.label? e x = second.context.label? e y)
      (Eval.expr first.context e first.store) (Eval.expr second.context e second.store) := by
  intro first second
  have hsimilar : first.Similar second := similar_performAll h calls
  obtain ⟨hfault, hafter⟩ := ending_of_matches (twins_exec statement first second hsimilar)
  refine ⟨hfault, same_complaints hsimilar statement, hafter, ?_⟩
  intro e
  have hctx := hsimilar.context
  refine (Eval.twins_expr hctx e first.store second.store hsimilar.store).imp ?_
  intro x y hxy
  exact ⟨hxy.dimension, hctx.label? e hxy⟩

/-- A length that loses its dimension, at five centimetres and at seven and a
quarter. -/
theorem magnitudes_invisible_lengths :
    let here : Span := .point .origin
    let registry : Registry := (∅ : Registry).register "cm" ⟨0.01, .oneLength⟩
    let fresh : Session Heap Pointer := start ⟨"s", ""⟩ {} registry Heap.empty
    let holding (x : Float) : Session Heap Pointer :=
      fresh.performAll [.assign "x" (.cast (.literal (.real x) here) (.symbol "cm" here) here)]
    let squared : Stmt :=
      .assign ⟨"x", here⟩
        (.binary (.arith .mul) (.identifier "x" here) (.identifier "x" here) here) here
    (holding 5.0).Similar (holding 7.25) ∧
      fault? (exec squared (holding 5.0)) = fault? (exec squared (holding 7.25)) ∧
      (final (exec squared (holding 5.0))).Similar (final (exec squared (holding 7.25))) := by
  intro here registry fresh holding squared
  -- the assignment is followed once for all lengths: only two numbers depend on them
  let stored (value si : Float) : Session Heap Pointer :=
    { fresh with
      scopes := ⟨[(∅ : Scope Pointer).insert "x"
        ⟨.real value, some ⟨.oneLength, si, ⟨0.01, .oneLength, some "cm"⟩⟩⟩]⟩ }
  have hstored (x : Float) : ∃ value si, holding x = stored value si := by
    subst stored holding fresh registry here
    exact ⟨_, _, rfl⟩
  have hsimilar : (holding 5.0).Similar (holding 7.25) := by
    obtain ⟨value, si, hfirst⟩ := hstored 5.0
    obtain ⟨value', si', hsecond⟩ := hstored 7.25
    rw [hfirst, hsecond]
    have hscopes : (stored value si).scopes.Similar (stored value' si').scopes :=
      .cons (Table.related_empty.insert "x" ⟨.reals value value', .some ⟨rfl, rfl⟩⟩) .nil
    exact ⟨rfl, rfl, rfl, hscopes, rfl, rfl, rfl, rfl⟩
  obtain ⟨hfault, _, hafter, _⟩ := magnitudes_invisible hsimilar [] squared
  exact ⟨hsimilar, hfault, hafter⟩

end Session

end UnitScript
