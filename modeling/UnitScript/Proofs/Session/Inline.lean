import UnitScript.Proofs.Session.Evaluation
import UnitScript.Proofs.Session.Renaming

/-!
# Evaluation with strings in the values

Strings need not be kept anywhere: a value can carry its text itself, and then
the reference of a text is the text.  The pool `Unit` does so.  Evaluation with
this pool is the yardstick for evaluation with the heap.

* `Heap.Reads heap f` says that `f` gives the text of every pointer of `heap`.
  What reads a heap reads every heap before it, so `f` can be taken from the
  heap at the end of a run and is then right all the way.
* `Eval.Mirrors` says that two results are the same up to references.
  `mirrors_pure` and `Mirrors.bind` compose it.
* `mirrors_expr` and `mirrors_render` are the results about expressions.
-/

namespace UnitScript

/-- Strings that are not kept anywhere: the reference of a text is the text. -/
instance : StringPool Unit String where
  intern text pool := (text, pool)
  text text _ := .ok text
  retain _ pool := .ok pool
  release _ pool := .ok pool

namespace Heap

/-- The function gives the text of every pointer of the heap. -/
def Reads (heap : Heap) (f : Pointer → String) : Prop :=
  ∀ p text, heap.text? p = some text → f p = text

/-- What reads a heap reads every heap before it. -/
theorem Reads.of_keeps {before after : Heap} {f : Pointer → String} (h : after.Reads f)
    (hkeeps : before.Keeps after) : before.Reads f :=
  fun p text htext => h p text (hkeeps p text htext)

/-- Two pointers of an orderly heap are equal if their texts are. -/
theorem Reads.eq_iff {heap : Heap} {f : Pointer → String} (h : heap.Reads f)
    {held : List (Variable Pointer)} (haccounts : heap.Accounts held) {p q : Pointer}
    (hp : heap.isAlive p = true) (hq : heap.isAlive q = true) : f p = f q ↔ p = q := by
  constructor
  · intro heq
    obtain ⟨text, htext⟩ := isAlive_iff_text?.1 hp
    obtain ⟨text', htext'⟩ := isAlive_iff_text?.1 hq
    rw [h p text htext, h q text' htext'] at heq
    subst heq
    exact haccounts.text?_inj htext htext'
  · intro heq
    rw [heq]

end Heap

/-- The store without its heap. -/
def Store.inline (s : Store Heap) : Store Unit := ⟨(), s.log⟩

namespace Eval

variable {α α' β β' : Type} {f : Pointer → String} {s : Store Heap}

/-- The store that a computation leaves, whether it stopped or not. -/
def left {π : Type} : EStateM.Result Fault (Store π) α → Store π
  | .ok _ s => s
  | .error _ s => s

/-- The result with its value and its store replaced. -/
def inlined (g : α → α') :
    EStateM.Result Fault (Store Heap) α → EStateM.Result Fault (Store Unit) α'
  | .ok value s => .ok (g value) s.inline
  | .error fault s => .error fault s.inline

/-- A result that was reached from the heap `before` keeps its strings and has
the other result as its image, `f` being the text of a pointer. -/
def Mirrors (f : Pointer → String) (g : α → α') (before : Heap)
    (result : EStateM.Result Fault (Store Heap) α)
    (image : EStateM.Result Fault (Store Unit) α') : Prop :=
  before.Keeps (left result).pool ∧
    ((left result).pool.Reads f → image = inlined g result)

theorem mirrors_pure (g : α → α') (value : α) :
    Mirrors f g s.pool ((pure value : Eval Heap α) s) ((pure (g value) : Eval Unit α') s.inline) :=
  ⟨.refl _, fun _ => rfl⟩

theorem mirrors_throw (g : α → α') (fault : Fault) :
    Mirrors f g s.pool ((throw fault : Eval Heap α) s) ((throw fault : Eval Unit α') s.inline) :=
  ⟨.refl _, fun _ => rfl⟩

/-- Sequences mirror each other if their parts do. -/
theorem Mirrors.bind {m : Eval Heap α} {m' : Eval Unit α'} {next : α → Eval Heap β}
    {next' : α' → Eval Unit β'} {g : α → α'} {g' : β → β'}
    (hm : Mirrors f g s.pool (m s) (m' s.inline))
    (hnext : ∀ value s', m s = .ok value s' →
      Mirrors f g' s'.pool (next value s') (next' (g value) s'.inline)) :
    Mirrors f g' s.pool ((m >>= next) s) ((m' >>= next') s.inline) := by
  change Mirrors f g' s.pool (EStateM.bind m next s) (EStateM.bind m' next' s.inline)
  unfold EStateM.bind
  cases hresult : m s with
  | error fault s' =>
    rw [hresult] at hm
    refine ⟨hm.1, fun hreads => ?_⟩
    rw [hm.2 hreads]
    rfl
  | ok value s' =>
    have hlast := hnext value s' hresult
    rw [hresult] at hm
    refine ⟨hm.1.trans hlast.1, fun hreads => ?_⟩
    rw [hm.2 (hreads.of_keeps hlast.1)]
    exact hlast.2 hreads

/-! ## The steps of evaluation -/

theorem mirrors_complain (ctx : Context Pointer) (complaints : List Complaint) :
    Mirrors f id s.pool (complain ctx complaints s) (complain (ctx.map f) complaints s.inline) :=
  ⟨.refl _, fun _ => rfl⟩

theorem mirrors_ofExcept {ε : Type} {fault : ε → Fault} {g : α → α'} {result : Except ε α}
    {image : Except ε α'} (h : s.pool.Reads f → image = result.map g) :
    Mirrors f g s.pool (ofExcept fault result s) (ofExcept fault image s.inline) := by
  cases result with
  | error e =>
    refine ⟨.refl _, fun hreads => ?_⟩
    rw [h hreads]
    rfl
  | ok value =>
    refine ⟨.refl _, fun hreads => ?_⟩
    rw [h hreads]
    rfl

/-- The pointer of a text stands for that text. -/
theorem mirrors_intern {held : List (Variable Pointer)} (text : String)
    (h : s.pool.Accounts held) :
    Mirrors f f s.pool ((intern text : Eval Heap Pointer) s)
      ((intern text : Eval Unit String) s.inline) := by
  obtain ⟨_, hkeeps, htext⟩ := Heap.accounts_alloc h text
  refine ⟨hkeeps, fun hreads => ?_⟩
  change EStateM.Result.ok text s.inline = .ok (f (s.pool.alloc text).1) s.inline
  rw [hreads _ _ htext]

theorem mirrors_text {p : Pointer} (hp : s.pool.isAlive p = true) :
    Mirrors f id s.pool ((Eval.text p : Eval Heap String) s)
      ((Eval.text (f p) : Eval Unit String) s.inline) := by
  obtain ⟨text, htext⟩ := Heap.isAlive_iff_text?.1 hp
  rw [text_eq_ok htext]
  refine ⟨.refl _, fun hreads => ?_⟩
  rw [hreads p text htext]
  rfl

theorem mirrors_literal {held : List (Variable Pointer)} (value : Literal)
    (h : s.pool.Accounts held) :
    Mirrors f (Value.map f) s.pool ((literal value : Eval Heap (Value Pointer)) s)
      ((literal value : Eval Unit (Value String)) s.inline) := by
  cases value with
  | string text => exact (mirrors_intern text h).bind fun p s' _ => mirrors_pure (Value.map f) (.pointer p)
  | integer n => exact mirrors_pure (Value.map f) (.integer n)
  | real x => exact mirrors_pure (Value.map f) (.real x)
  | character c => exact mirrors_pure (Value.map f) (.character c)
  | boolean b => exact mirrors_pure (Value.map f) (.boolean b)
  | none => exact mirrors_pure (Value.map f) .nothing

/-- Operators do the same to texts as to pointers.  Equality is where the heap
has to be orderly: it compares pointers instead of texts. -/
theorem mirrors_binary {held : List (Variable Pointer)} (ctx : Context Pointer) (op : BinaryOp)
    (exponent : Expr) (span : Span) {lhs rhs : Evaluated Pointer} (h : s.pool.Accounts held)
    (hlhs : lhs.value.Live s.pool) (hrhs : rhs.value.Live s.pool) :
    Mirrors f (Evaluated.map f) s.pool
      ((binary ctx op exponent span lhs rhs : Eval Heap (Evaluated Pointer)) s)
      ((binary (ctx.map f) op exponent span (lhs.map f) (rhs.map f) :
        Eval Unit (Evaluated String)) s.inline) := by
  by_cases hconcat : ∃ a b, op = .arith .add ∧ lhs.value = .pointer a ∧ rhs.value = .pointer b
  · obtain ⟨a, b, rfl, ha, hb⟩ := hconcat
    have ha' : (lhs.map f).value = .pointer (f a) := congrArg (Value.map f) ha
    have hb' : (rhs.map f).value = .pointer (f b) := congrArg (Value.map f) hb
    rw [binary_concat ctx exponent span ha hb, binary_concat (ctx.map f) exponent span ha' hb']
    refine (mirrors_text (hlhs a ha)).bind fun front s₁ hfront => ?_
    have h₁ := orderly_text h (hlhs a ha)
    rw [hfront] at h₁
    have hb₁ : s₁.pool.isAlive b = true := h₁.2.1.isAlive (hrhs b hb)
    refine (mirrors_text hb₁).bind fun back s₂ hback => ?_
    have h₂ := orderly_text h₁.1 hb₁
    rw [hback] at h₂
    refine (mirrors_intern (front ++ back) h₂.1).bind fun p s₃ _ => ?_
    exact mirrors_pure (Evaluated.map f) (Evaluated.ofValue (.pointer p))
  · rw [binary_combine ctx exponent span fun a b hop ha hb => hconcat ⟨a, b, hop, ha, hb⟩]
    have hconcat' : ∀ a b, op = .arith .add → (lhs.map f).value = .pointer a →
        (rhs.map f).value ≠ .pointer b := by
      intro a b hop ha hb
      obtain ⟨p, hp, _⟩ := Value.map_eq_pointer ha
      obtain ⟨q, hq, _⟩ := Value.map_eq_pointer hb
      exact hconcat ⟨p, q, hop, hp, hq⟩
    rw [binary_combine (ctx.map f) exponent span hconcat']
    have hcombined : Mirrors f (fun result => (result.1.map f, result.2)) s.pool
        ((ofExcept .value (Evaluated.combine op exponent lhs rhs) :
          Eval Heap (Evaluated Pointer × List Problem)) s)
        ((ofExcept .value (Evaluated.combine op exponent (lhs.map f) (rhs.map f)) :
          Eval Unit (Evaluated String × List Problem)) s.inline) := by
      refine mirrors_ofExcept fun hreads => Evaluated.combine_map op exponent fun p q hp hq => ?_
      exact hreads.eq_iff h (hlhs p hp) (hrhs q hq)
    refine hcombined.bind fun result s₁ _ => ?_
    refine (mirrors_complain ctx _).bind fun _ s₂ _ => ?_
    exact mirrors_pure (Evaluated.map f) result.1

/-! ## Expressions -/

/-- An expression has the same value whether strings are kept in the heap or
in the values. -/
theorem mirrors_expr (ctx : Context Pointer) (e : Expr) (s : Store Heap)
    (h : s.pool.Accounts ctx.scopes.contents) :
    Mirrors f (Evaluated.map f) s.pool ((expr ctx e : Eval Heap (Evaluated Pointer)) s)
      ((expr (ctx.map f) e : Eval Unit (Evaluated String)) s.inline) := by
  induction e generalizing s with
  | literal value span =>
    refine (mirrors_literal value h).bind fun result s' _ => ?_
    rw [Evaluated.ofValue_map]
    exact mirrors_pure (Evaluated.map f) (Evaluated.ofValue result)
  | identifier name span =>
    have hfound : (ctx.map f).scopes.lookup? name =
        (ctx.scopes.lookup? name).map (Variable.map f) := Scopes.lookup?_map f ctx.scopes name
    cases hlookup : ctx.scopes.lookup? name with
    | some held =>
      rw [hlookup] at hfound
      simp only [expr, hlookup, hfound, Option.map_some, Evaluated.ofVariable_map]
      exact mirrors_pure (Evaluated.map f) (Evaluated.ofVariable held)
    | none =>
      rw [hlookup] at hfound
      simp only [expr, hlookup, hfound, Option.map_none]
      exact mirrors_throw (Evaluated.map f) (.undefinedVariable name)
  | negate operand span ih =>
    refine (ih s h).bind fun inner s' _ => ?_
    exact mirrors_ofExcept fun _ => Evaluated.negate_map f inner
  | binary op left right span ihl ihr =>
    refine (ihl s h).bind fun lhs s₁ hleft => ?_
    have h₁ := orderly_expr ctx left s h
    rw [hleft] at h₁
    obtain ⟨h₁, _, hlhs⟩ := h₁
    refine (ihr s₁ h₁).bind fun rhs s₂ hright => ?_
    have h₂ := orderly_expr ctx right s₁ h₁
    rw [hright] at h₂
    obtain ⟨h₂, hkeeps, hrhs⟩ := h₂
    exact mirrors_binary ctx op right span h₂ (hkeeps.live hlhs) hrhs
  | cast value unit span ih =>
    rw [expr_cast, expr_cast, Context.binding?_map]
    refine (mirrors_complain ctx _).bind fun _ s₁ hlogged => ?_
    have h₁ := orderly_complain ctx (unit.evaluate ctx.registry).2 h
    rw [hlogged] at h₁
    refine (ih s₁ h₁.1).bind fun inner s₂ _ => ?_
    rw [show (ctx.map f).registry = ctx.registry from rfl, Evaluated.cast_map]
    refine (mirrors_complain ctx _).bind fun _ s₃ _ => ?_
    exact mirrors_pure (Evaluated.map f) _
  | paren inner span ih => exact ih s h

/-- An expression is displayed in the same way whether strings are kept in the
heap or in the values. -/
theorem mirrors_render (ctx : Context Pointer) (e : Expr) (s : Store Heap)
    (h : s.pool.Accounts ctx.scopes.contents) :
    Mirrors f id s.pool ((render ctx e : Eval Heap String) s)
      ((render (ctx.map f) e : Eval Unit String) s.inline) := by
  refine (mirrors_expr ctx e s h).bind fun result s' hresult => ?_
  have hlive := orderly_expr ctx e s h
  rw [hresult] at hlive
  obtain ⟨_, _, hlive⟩ := hlive
  have hvalue : (result.map f).value = result.value.map f := rfl
  rw [hvalue, Context.label?_map]
  cases hshown : result.value with
  | pointer p => exact mirrors_text (hlive p hshown)
  | _ => cases ctx.label? e result <;> exact mirrors_pure id _

end Eval

end UnitScript
