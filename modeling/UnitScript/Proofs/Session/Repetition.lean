import UnitScript.Proofs.Session.Frames
import UnitScript.Proofs.Session.Inline
import UnitScript.Proofs.Session.References

/-!
# Asking the same again

What an expression stands for can be asked without consequences.  The variables
stay as they are, the heap only gains strings that nobody holds, and asking again
gives the same answer without a new string: every string that was made on the
way, also before a fault, is found again.

* `Eval.Repeats` says so of a computation.  The heap in which it is repeated may
  have gained other strings since, so that the first part of a sequence can be
  repeated after the whole of it.  `Repeats.bind` composes it.
* `repeats_expr` and `repeats_render` are the results about expressions.
* `Query` lists the questions, and `queries_repeatable` is the result for every
  reachable session.
-/

namespace UnitScript

/-- The value that a computation gave, or the fault that it stopped with. -/
def answer {σ α : Type} : EStateM.Result Fault σ α → Except Fault α
  | .ok value _ => .ok value
  | .error fault _ => .error fault

namespace Heap

/-- A text that is in the heap is found there. -/
theorem alloc_of_text? {heap : Heap} (h : heap.Shared) {p : Pointer} {text : String}
    (htext : heap.text? p = some text) : heap.alloc text = (p, heap) := by
  simp only [alloc, (h text p).2 htext]

end Heap

/-! ## Computations -/

namespace Eval

variable {α β : Type} {s : Store Heap}

/-- From `s` the computation keeps all strings.  In any heap that has the strings
it leaves, it gives the same answer and makes no string. -/
structure Repeats (m : Eval Heap α) (s : Store Heap) : Prop where
  keeps : s.pool.Keeps (left (m s)).pool
  again : ∀ later : Store Heap, later.pool.Shared → (left (m s)).pool.Keeps later.pool →
    answer (m later) = answer (m s) ∧ (left (m later)).pool = later.pool

theorem repeats_pure (value : α) : Repeats (pure value) s :=
  ⟨.refl _, fun _ _ _ => ⟨rfl, rfl⟩⟩

theorem repeats_throw (fault : Fault) : Repeats (throw fault : Eval Heap α) s :=
  ⟨.refl _, fun _ _ _ => ⟨rfl, rfl⟩⟩

theorem Repeats.bind {m : Eval Heap α} {next : α → Eval Heap β} (hm : Repeats m s)
    (hnext : ∀ value s', m s = .ok value s' → Repeats (next value) s') :
    Repeats (m >>= next) s := by
  obtain ⟨hkeeps, hagain⟩ := hm
  cases hresult : m s with
  | error fault s' =>
    rw [hresult] at hkeeps hagain
    refine ⟨by rwa [bind_of_error hresult], fun later hshared hlater => ?_⟩
    rw [bind_of_error hresult] at hlater ⊢
    obtain ⟨hanswer, hpool⟩ := hagain later hshared hlater
    cases hrepeated : m later with
    | ok value s'' =>
      rw [hrepeated] at hanswer
      cases hanswer
    | error fault' s'' =>
      rw [hrepeated] at hanswer hpool
      cases hanswer
      rw [bind_of_error hrepeated]
      exact ⟨rfl, hpool⟩
  | ok value s' =>
    rw [hresult] at hkeeps hagain
    obtain ⟨hkeeps', hagain'⟩ := hnext value s' hresult
    refine ⟨?_, fun later hshared hlater => ?_⟩
    · rw [bind_of_ok hresult]
      exact hkeeps.trans hkeeps'
    rw [bind_of_ok hresult] at hlater ⊢
    -- the strings of the first part are kept by the second part, and so until later
    obtain ⟨hanswer, hpool⟩ := hagain later hshared (hkeeps'.trans hlater)
    cases hrepeated : m later with
    | error fault' s'' =>
      rw [hrepeated] at hanswer
      cases hanswer
    | ok value' s'' =>
      rw [hrepeated] at hanswer hpool
      cases hanswer
      rw [bind_of_ok hrepeated]
      have hpool : s''.pool = later.pool := hpool
      rw [← hpool] at hshared hlater ⊢
      exact hagain' s'' hshared hlater

/-! ## The steps of evaluation -/

theorem repeats_ofExcept {ε : Type} (fault : ε → Fault) (result : Except ε α) :
    Repeats (ofExcept fault result) s := by
  cases result <;> exact ⟨.refl _, fun _ _ _ => ⟨rfl, rfl⟩⟩

theorem repeats_complain {ρ : Type} (ctx : Context ρ) (complaints : List Complaint) :
    Repeats (complain ctx complaints) s :=
  ⟨.refl _, fun _ _ _ => ⟨rfl, rfl⟩⟩

/-- A text has its pointer from the first time on. -/
theorem repeats_intern {held : List (Variable Pointer)} (h : s.pool.Accounts held)
    (text : String) : Repeats (intern text : Eval Heap Pointer) s := by
  obtain ⟨_, hkeeps, htext⟩ := Heap.accounts_alloc h text
  refine ⟨hkeeps, fun later hshared hlater => ?_⟩
  have hfound := Heap.alloc_of_text? hshared (hlater _ _ htext)
  constructor
  · show Except.ok (later.pool.alloc text).1 = Except.ok (s.pool.alloc text).1
    rw [hfound]
  · show (later.pool.alloc text).2 = later.pool
    rw [hfound]

/-- A pointer that is not dead is read again. -/
theorem repeats_text {p : Pointer} (h : s.pool.isAlive p = true) :
    Repeats (Eval.text p : Eval Heap String) s := by
  obtain ⟨text, htext⟩ := Heap.isAlive_iff_text?.1 h
  have hread := text_eq_ok htext
  constructor
  · rw [hread]
    exact .refl _
  · intro later _ hlater
    rw [hread] at hlater ⊢
    rw [text_eq_ok (hlater p text htext)]
    exact ⟨rfl, rfl⟩

theorem repeats_literal {held : List (Variable Pointer)} (h : s.pool.Accounts held)
    (value : Literal) : Repeats (literal value : Eval Heap (Value Pointer)) s := by
  cases value with
  | string text => exact (repeats_intern h text).bind fun _ _ _ => repeats_pure _
  | _ => exact repeats_pure _

theorem repeats_binary {held : List (Variable Pointer)} (h : s.pool.Accounts held)
    (ctx : Context Pointer) (op : BinaryOp) (exponent : Expr) (span : Span)
    {lhs rhs : Evaluated Pointer} (hlhs : lhs.value.Live s.pool) (hrhs : rhs.value.Live s.pool) :
    Repeats (binary ctx op exponent span lhs rhs : Eval Heap (Evaluated Pointer)) s := by
  by_cases hconcat : ∃ a b, op = .arith .add ∧ lhs.value = .pointer a ∧ rhs.value = .pointer b
  · obtain ⟨a, b, rfl, ha, hb⟩ := hconcat
    -- reading the operands changes nothing
    have hreads {p : Pointer} (hp : s.pool.isAlive p = true) {text : String} {s' : Store Heap}
        (hread : (Eval.text p : Eval Heap String) s = .ok text s') : s' = s := by
      obtain ⟨text', htext⟩ := Heap.isAlive_iff_text?.1 hp
      rw [text_eq_ok htext] at hread
      cases hread
      rfl
    rw [binary_concat ctx exponent span ha hb]
    refine (repeats_text (hlhs a ha)).bind fun front s₁ hfront => ?_
    obtain rfl := hreads (hlhs a ha) hfront
    refine (repeats_text (hrhs b hb)).bind fun back s₂ hback => ?_
    obtain rfl := hreads (hrhs b hb) hback
    exact (repeats_intern h (front ++ back)).bind fun _ _ _ => repeats_pure _
  · rw [binary_combine ctx exponent span fun a b hop ha hb => hconcat ⟨a, b, hop, ha, hb⟩]
    refine (repeats_ofExcept _ _).bind fun result s₁ _ => ?_
    exact (repeats_complain ctx _).bind fun _ _ _ => repeats_pure _

/-! ## Expressions -/

/-- What evaluating an expression leaves: a heap in order and a value in it. -/
theorem orderly_of_ok {ctx : Context Pointer} {e : Expr} {s s' : Store Heap}
    {result : Evaluated Pointer} (h : s.pool.Accounts ctx.scopes.contents)
    (hresult : (expr ctx e : Eval Heap (Evaluated Pointer)) s = .ok result s') :
    s'.pool.Accounts ctx.scopes.contents ∧ s.pool.Keeps s'.pool ∧ result.value.Live s'.pool := by
  have horderly := orderly_expr ctx e s h
  rw [hresult] at horderly
  exact horderly

/-- Also if a fault stops it, an expression leaves a heap in order, with all its
strings. -/
theorem accounts_left (ctx : Context Pointer) (e : Expr) (s : Store Heap)
    (h : s.pool.Accounts ctx.scopes.contents) :
    (left ((expr ctx e : Eval Heap (Evaluated Pointer)) s)).pool.Accounts ctx.scopes.contents ∧
      s.pool.Keeps (left ((expr ctx e : Eval Heap (Evaluated Pointer)) s)).pool := by
  have horderly := orderly_expr ctx e s h
  cases hresult : (expr ctx e : Eval Heap (Evaluated Pointer)) s with
  | ok result s' =>
    rw [hresult] at horderly
    exact ⟨horderly.1, horderly.2.1⟩
  | error fault s' =>
    rw [hresult] at horderly
    exact ⟨horderly.1, horderly.2.1⟩

/-- An expression is evaluated again like the first time, and makes no string
then. -/
theorem repeats_expr (ctx : Context Pointer) (e : Expr) (s : Store Heap)
    (h : s.pool.Accounts ctx.scopes.contents) :
    Repeats (expr ctx e : Eval Heap (Evaluated Pointer)) s := by
  induction e generalizing s with
  | literal value span => exact (repeats_literal h value).bind fun _ _ _ => repeats_pure _
  | identifier name span =>
    unfold expr
    cases ctx.scopes.lookup? name with
    | some held => exact repeats_pure _
    | none => exact repeats_throw _
  | negate operand span ih => exact (ih s h).bind fun _ _ _ => repeats_ofExcept _ _
  | binary op left right span ihl ihr =>
    refine (ihl s h).bind fun lhs s₁ hleft => ?_
    obtain ⟨h₁, _, hlhs⟩ := orderly_of_ok h hleft
    refine (ihr s₁ h₁).bind fun rhs s₂ hright => ?_
    obtain ⟨h₂, hkeeps, hrhs⟩ := orderly_of_ok h₁ hright
    exact repeats_binary h₂ ctx op right span (hkeeps.live hlhs) hrhs
  | cast value unit span ih =>
    rw [expr_cast]
    refine (repeats_complain ctx _).bind fun _ s₁ hlogged => ?_
    have hpool : s₁.pool = s.pool := by
      cases hlogged
      rfl
    refine (ih s₁ (by rwa [hpool])).bind fun inner s₂ _ => ?_
    exact (repeats_complain ctx _).bind fun _ _ _ => repeats_pure _
  | paren inner span ih => exact ih s h

/-- An expression is displayed again like the first time, and makes no string
then. -/
theorem repeats_render (ctx : Context Pointer) (e : Expr) (s : Store Heap)
    (h : s.pool.Accounts ctx.scopes.contents) : Repeats (render ctx e : Eval Heap String) s := by
  refine (repeats_expr ctx e s h).bind fun result s' hresult => ?_
  obtain ⟨_, _, hlive⟩ := orderly_of_ok h hresult
  cases hvalue : result.value with
  | pointer p => exact repeats_text (hlive p hvalue)
  | _ => cases ctx.label? e result <;> exact repeats_pure _

end Eval

/-! ## Questions -/

/-- What is made of the result of an evaluation can be made in the course of it. -/
theorem Session.evaluating_map {π ρ α β : Type} (eval : Context ρ → Eval π α) (f : α → β)
    (session : Session π ρ) :
    (do return f (← evaluating eval) : Run π ρ β) session =
      evaluating (fun ctx => do return f (← eval ctx)) session := by
  simp only [bind_eq, evaluating]
  cases hresult : eval session.context session.store with
  | ok value s' => rw [Eval.bind_of_ok hresult]; rfl
  | error fault s' => rw [Eval.bind_of_error hresult]

/-- A question about an expression. -/
inductive Query where
  | value
  | quantity
  | display

namespace Query

/-- What kind of answer there is to a question. -/
def Answer : Query → Type
  | .value => Value Pointer
  | .quantity => Option Quantity
  | .display => String

/-- Asks a session about an expression. -/
def ask (e : Expr) : (query : Query) → Run Heap Pointer query.Answer
  | .value => Session.evaluate e
  | .quantity => Session.quantity e
  | .display => Session.render e

/-- The computation that answers a question. -/
def eval (ctx : Context Pointer) (e : Expr) : (query : Query) → Eval Heap query.Answer
  | .value => do return (← Eval.expr ctx e).value
  | .quantity => do return (← Eval.expr ctx e).quantity
  | .display => Eval.render ctx e

theorem ask_eq (query : Query) (e : Expr) :
    query.ask e = Session.evaluating fun ctx => query.eval ctx e := by
  funext session
  cases query with
  | value => exact Session.evaluating_map (Eval.expr · e) (·.value) session
  | quantity => exact Session.evaluating_map (Eval.expr · e) (·.quantity) session
  | display => rfl

variable {ctx : Context Pointer} {s : Store Heap}

theorem repeats_eval (h : s.pool.Accounts ctx.scopes.contents) (e : Expr) (query : Query) :
    Eval.Repeats (query.eval ctx e) s := by
  cases query with
  | display => exact Eval.repeats_render ctx e s h
  | _ => exact (Eval.repeats_expr ctx e s h).bind fun _ _ _ => Eval.repeats_pure _

/-- All questions about an expression make the same strings. -/
theorem pool_eval (h : s.pool.Accounts ctx.scopes.contents) (e : Expr) (query : Query) :
    (Eval.left (query.eval ctx e s)).pool =
      (Eval.left ((Eval.expr ctx e : Eval Heap (Evaluated Pointer)) s)).pool := by
  unfold eval Eval.render
  cases hresult : (Eval.expr ctx e : Eval Heap (Evaluated Pointer)) s with
  | error fault s' => cases query <;> simp only [Eval.bind_of_error hresult] <;> rfl
  | ok result s' =>
    obtain ⟨_, _, hlive⟩ := Eval.orderly_of_ok h hresult
    cases query with
    | value => simp only [Eval.bind_of_ok hresult]; rfl
    | quantity => simp only [Eval.bind_of_ok hresult]; rfl
    | display =>
      simp only [Eval.bind_of_ok hresult]
      cases hvalue : result.value with
      | pointer p =>
        obtain ⟨text, htext⟩ := Heap.isAlive_iff_text?.1 (hlive p hvalue)
        show (Eval.left ((Eval.text p : Eval Heap String) s')).pool = s'.pool
        rw [Eval.text_eq_ok htext]
        rfl
      | _ => cases ctx.label? e result <;> rfl

end Query

namespace Session

/-- What a question leaves of a session. -/
theorem final_ask (query : Query) (e : Expr) (session : Session Heap Pointer) :
    final (query.ask e session) =
      { session with store := Eval.left (query.eval session.context e session.store) } := by
  rw [query.ask_eq, evaluating]
  cases query.eval session.context e session.store <;> rfl

theorem answer_ask (query : Query) (e : Expr) (session : Session Heap Pointer) :
    answer (query.ask e session) = answer (query.eval session.context e session.store) := by
  rw [query.ask_eq, evaluating]
  cases query.eval session.context e session.store <;> rfl

/-- In every session that calls lead to, a question about an expression leaves the
variables as they are, and the heap with its strings and their counts; new strings
have the reference of the heap only.  Any question about the same expression has
the same answer afterwards as before, a fault included, and then makes no
string. -/
theorem queries_repeatable (source : Source) (limits : Limits) (registry : Registry)
    (calls : List Call) (e : Expr) (query again : Query) :
    let session : Session Heap Pointer :=
      (start source limits registry Heap.empty).performAll calls
    let after := final (query.ask e session)
    let last := final (again.ask e after)
    after.scopes = session.scopes ∧ session.store.pool.Grows after.store.pool ∧
    answer (again.ask e after) = answer (again.ask e session) ∧
    last.scopes = session.scopes ∧ last.store.pool = after.store.pool := by
  intro session after last
  have haccounts : session.store.pool.Accounts session.context.scopes.contents :=
    (sound_performAll (sound_start source limits registry) calls).1.accounts
  have hafter : after = { session with
      store := Eval.left (query.eval session.context e session.store) } :=
    final_ask query e session
  have hscopes : after.scopes = session.scopes := by rw [hafter]
  have hcontext : after.context = session.context := by
    rw [hafter]
    rfl
  have hpool : after.store.pool =
      (Eval.left ((Eval.expr session.context e : Eval Heap _) session.store)).pool := by
    rw [hafter]
    exact Query.pool_eval haccounts e query
  obtain ⟨hordered, hkeeps⟩ := Eval.accounts_left session.context e session.store haccounts
  rw [← hpool] at hordered hkeeps
  -- what the second question needs is what the first one left
  have hleft := Query.pool_eval haccounts e again
  rw [← hpool] at hleft
  obtain ⟨hanswer, hsame⟩ := (Query.repeats_eval haccounts e again).again after.store
    hordered.shared (by rw [hleft]; exact .refl _)
  have hlast : last = { after with
      store := Eval.left (again.eval session.context e after.store) } := by
    rw [← hcontext]
    exact final_ask again e after
  refine ⟨hscopes, haccounts.grows hordered hkeeps, ?_, ?_, ?_⟩
  · rw [answer_ask, answer_ask, hcontext]
    exact hanswer
  · rw [hlast]
    exact hscopes
  · rw [hlast]
    exact hsame

end Session

end UnitScript
