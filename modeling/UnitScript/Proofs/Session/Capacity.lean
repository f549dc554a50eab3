import Mathlib.Data.Finset.Card
import UnitScript.Proofs.Session.Rollback

/-!
# Room for references

A count has a greatest value, and a statement that would exceed it stops.  This
does not happen in a program that has fewer variables than a count can reach.

* `Stmt.mostVariables` bounds how many variables statements have at once, all
  open blocks included.  It is read off the text of the program.
* `Room` is the invariant of a run: the innermost scope holds only names that
  are planned for it, and the counts have room for all planned variables.
* `fits_exec` and `fits_execAll` show that statements keep it and do not stop
  because of a count; `fits_runAll` is the result about a run.
-/

namespace UnitScript

namespace Stmt

/-- The name that the statement assigns to in the scope it stands in. -/
def target? : Stmt → Option String
  | .assign target _ _ => some target.text
  | .display _ => none
  | .block .. => none

/-- The names that statements assign to in the scope they stand in. -/
def targets (statements : List Stmt) : Finset String := (statements.filterMap target?).toFinset

mutual

/-- How many variables the scopes inside a statement have at once. -/
def innerVariables : Stmt → Nat
  | .assign .. => 0
  | .display _ => 0
  | .block body _ => (targets body).card + deepest body

/-- The greatest number of variables inside one of the statements. -/
def deepest : List Stmt → Nat
  | [] => 0
  | statement :: later => max statement.innerVariables (deepest later)

end

/-- How many variables statements have at once: those of the scope they stand
in, and those of the blocks that are open with it. -/
def mostVariables (statements : List Stmt) : Nat := (targets statements).card + deepest statements

theorem target?_mem_targets {statement : Stmt} {statements : List Stmt} {name : String}
    (hmem : statement ∈ statements) (htarget : statement.target? = some name) :
    name ∈ targets statements :=
  List.mem_toFinset.2 (List.mem_filterMap.2 ⟨statement, hmem, htarget⟩)

theorem innerVariables_le_deepest {statement : Stmt} {statements : List Stmt}
    (hmem : statement ∈ statements) : statement.innerVariables ≤ deepest statements := by
  induction statements with
  | nil => cases hmem
  | cons first later ih =>
    unfold deepest
    rcases List.mem_cons.1 hmem with rfl | hmem
    · exact Nat.le_max_left _ _
    · exact Nat.le_trans (ih hmem) (Nat.le_max_right _ _)

end Stmt

namespace Session

/-- No count was at its greatest. -/
def Fits {α : Type} (result : EStateM.Result Fault (Session Heap Pointer) α) : Prop :=
  ∀ p, fault? result ≠ some (.heap (.overflow p))

theorem fits_ok {α : Type} (value : α) (session : Session Heap Pointer) :
    Fits (.ok value session) := by
  intro p hp
  cases hp

theorem fits_stepLimit {α : Type} (limit : Nat) (session : Session Heap Pointer) :
    Fits (.error (.stepLimit limit) session : EStateM.Result Fault (Session Heap Pointer) α) := by
  intro p hp
  cases hp

/-- The innermost scope holds planned names only, and there is room for them,
for the variables outside, and for `deeper` variables inside.  A string has a
reference of the heap besides, and one more while a variable that holds it is
overwritten. -/
structure Room (planned : Finset String) (deeper : Nat) (scopes : Scopes Pointer) : Prop where
  named : ∀ scope outer, scopes.levels = scope :: outer → ∀ entry ∈ scope.entries, entry.1 ∈ planned
  enough : (Scopes.contents ⟨scopes.levels.tail⟩).length + planned.card + deeper + 2 ≤ Heap.maxRefs

/-- A statement is planned if there is room for what it assigns and for the
variables inside it. -/
def Planned (planned : Finset String) (deeper : Nat) (statement : Stmt) : Prop :=
  (∀ name, statement.target? = some name → name ∈ planned) ∧ statement.innerVariables ≤ deeper

variable {planned : Finset String} {deeper : Nat}

/-- All variables together are no more than the planned ones and those
outside. -/
theorem Room.contents_length_le {scopes : Scopes Pointer} (h : Room planned deeper scopes) :
    scopes.contents.length ≤ planned.card + (Scopes.contents ⟨scopes.levels.tail⟩).length := by
  cases hlevels : scopes.levels with
  | nil => simp [Scopes.contents, hlevels]
  | cons scope outer =>
    have hsubset : scope.keys.toFinset ⊆ planned := by
      intro name hname
      obtain ⟨entry, hentry, rfl⟩ := List.mem_map.1 (List.mem_toFinset.1 hname)
      exact h.named scope outer hlevels entry hentry
    have hscope : scope.values.length ≤ planned.card := by
      calc scope.values.length = scope.keys.length := by simp [Table.values, Table.keys]
        _ = scope.keys.toFinset.card := (List.toFinset_card_of_nodup scope.nodup_keys).symm
        _ ≤ planned.card := Finset.card_le_card hsubset
    rw [Scopes.contents, hlevels, List.flatMap_cons, List.length_append]
    exact Nat.add_le_add_right hscope _

/-- With room left, no count is at its greatest. -/
theorem Room.holders_lt {scopes : Scopes Pointer} (h : Room planned deeper scopes) (p : Pointer) :
    ¬ Heap.maxRefs < 2 + p.holders scopes.contents := by
  have hholders : p.holders scopes.contents ≤ scopes.contents.length := List.countP_le_length
  have hcontents := h.contents_length_le
  have henough := h.enough
  omega

/-! ## Statements -/

theorem fits_assign {session : Session Heap Pointer} (hsound : session.Sound)
    (hroom : Room planned deeper session.scopes) {name : String} (hname : name ∈ planned)
    (e : Expr) :
    Fits (assign name e session) ∧
      Room planned deeper (final (assign name e session)).scopes := by
  have heval := Eval.orderly_expr session.context e session.store hsound.accounts
  rcases assign_spec session hsound name e with
    ⟨fault, store, hresult, heq⟩ | ⟨evaluated, store, scope, outer, hlevels, _, hstored⟩
  · rw [hresult] at heval
    rw [heq]
    refine ⟨fun p hp => ?_, hroom⟩
    exact heval.2.2 (.overflow p) (Option.some.inj hp)
  · rcases hstored with ⟨p, _, hmax⟩ | ⟨pool, heq, _, _⟩
    · exact absurd hmax (hroom.holders_lt p)
    · rw [heq]
      refine ⟨fits_ok _ _, ⟨?_, ?_⟩⟩
      · intro scope' outer' hlevels' entry hentry
        obtain ⟨rfl, rfl⟩ := List.cons.inj hlevels'
        rcases Table.mem_insertEntry hentry with rfl | hentry
        · exact hname
        · exact hroom.named scope outer hlevels entry hentry
      · have henough := hroom.enough
        rw [hlevels] at henough
        exact henough

theorem fits_tick_bind {session : Session Heap Pointer} {next : Unit → Run Heap Pointer Unit}
    (hroom : Room planned deeper session.scopes)
    (hnext : Fits (next () session.ticked) ∧
      Room planned deeper (final (next () session.ticked)).scopes) :
    Fits ((tick >>= next) session) ∧
      Room planned deeper (final ((tick >>= next) session)).scopes := by
  rw [tick_bind]
  split
  · exact ⟨fits_stepLimit _ _, hroom⟩
  · exact hnext

theorem fits_display {session : Session Heap Pointer} (hsound : session.Sound) (value : Expr) :
    Fits (exec (.display value) session) := by
  have heval := Eval.orderly_render session.ticked.context value session.ticked.store hsound.accounts
  unfold exec
  rw [tick_bind]
  split
  · exact fits_stepLimit _ _
  · rw [bind_eq, render, evaluating]
    cases hresult : Eval.render session.ticked.context value session.ticked.store with
    | ok line store =>
      simp only [emit]
      split <;> exact fits_ok _ _
    | error fault store =>
      rw [hresult] at heval
      intro p hp
      exact heval.2.2 (.overflow p) (Option.some.inj hp)

/-- A block stops because of a count only if its body does. -/
theorem fits_block {session : Session Heap Pointer} (hsound : session.Sound) {body : List Stmt}
    (hbody : Fits (execAll body { session.ticked with scopes := session.scopes.openScope }))
    (span : Span) : Fits (exec (.block body span) session) := by
  unfold exec
  rw [tick_bind]
  split
  · exact fits_stepLimit _ _
  · change Fits (thenAlways (execAll body) closeScope
      { session.ticked with scopes := session.scopes.openScope })
    have hopened : Sound { session.ticked with scopes := session.scopes.openScope } :=
      ⟨hsound.accounts, nofun⟩
    obtain ⟨pool, hclosed, _, _⟩ := closeScope_spec _ (safe_execAll body hopened).final.1
    unfold Fits
    rw [fault?_thenAlways, hclosed]
    intro p hp
    apply hbody p
    cases hfault : fault? (execAll body { session.ticked with scopes := session.scopes.openScope }) with
    | none =>
      rw [hfault] at hp
      cases hp
    | some fault =>
      rw [hfault] at hp
      exact hp

/-- Statements are planned for the names that they assign to. -/
theorem planned_of_mem {statement : Stmt} {statements : List Stmt} (hmem : statement ∈ statements) :
    Planned (Stmt.targets statements) (Stmt.deepest statements) statement :=
  ⟨fun _ htarget => Stmt.target?_mem_targets hmem htarget, Stmt.innerVariables_le_deepest hmem⟩

mutual

/-- A planned statement does not stop because of a count, and leaves room for
the next one. -/
theorem fits_exec (statement : Stmt) {session : Session Heap Pointer} {planned : Finset String}
    {deeper : Nat} (hsound : session.Sound) (hroom : Room planned deeper session.scopes)
    (hplanned : Planned planned deeper statement) :
    Fits (exec statement session) ∧
      Room planned deeper (final (exec statement session)).scopes := by
  have hcounted : session.ticked.Sound := ⟨hsound.accounts, hsound.opened⟩
  cases statement with
  | assign target value span =>
    unfold exec
    refine fits_tick_bind hroom ?_
    have hassign := fits_assign hcounted hroom (hplanned.1 target.text rfl) value
    unfold Fits
    rw [final_bind, bind_eq]
    cases hresult : assign target.text value session.ticked with
    | ok _ after =>
      rw [hresult] at hassign
      exact ⟨fits_ok _ _, hassign.2⟩
    | error fault after =>
      rw [hresult] at hassign
      exact hassign
  | display value =>
    refine ⟨fits_display hsound value, ?_⟩
    rw [scopes_display]
    exact hroom
  | block body span =>
    refine ⟨fits_block hsound ?_ span, ?_⟩
    · have hopened : Sound { session.ticked with scopes := session.scopes.openScope } :=
        ⟨hsound.accounts, nofun⟩
      refine fits_execAll body hopened ⟨?_, ?_⟩ fun other => planned_of_mem
      · intro scope outer hlevels entry hentry
        obtain ⟨rfl, rfl⟩ := List.cons.inj hlevels
        cases hentry
      · have hcontents := hroom.contents_length_le
        have henough := hroom.enough
        have hinner : (Stmt.targets body).card + Stmt.deepest body ≤ deeper := by
          have hle := hplanned.2
          unfold Stmt.innerVariables at hle
          exact hle
        change session.scopes.contents.length + _ + _ + 2 ≤ _
        omega
    · rw [scopes_block hsound]
      exact hroom

/-- Planned statements do not stop because of a count. -/
theorem fits_execAll (statements : List Stmt) {session : Session Heap Pointer}
    {planned : Finset String} {deeper : Nat} (hsound : session.Sound)
    (hroom : Room planned deeper session.scopes)
    (hplanned : ∀ statement ∈ statements, Planned planned deeper statement) :
    Fits (execAll statements session) := by
  cases statements with
  | nil =>
    unfold execAll
    exact fits_ok _ _
  | cons statement later =>
    obtain ⟨hfits, hleft⟩ := fits_exec statement hsound hroom (hplanned statement List.mem_cons_self)
    have hsafe := (safe_exec statement hsound).final.1
    unfold execAll Fits
    rw [bind_eq]
    cases hresult : exec statement session with
    | ok _ after =>
      rw [hresult] at hleft hsafe
      exact fits_execAll later hsafe hleft fun other hmem =>
        hplanned other (List.mem_cons_of_mem _ hmem)
    | error fault after =>
      rw [hresult] at hfits
      exact hfits

end

/-! ## A whole run -/

/-- A program with fewer variables than a count can reach does not stop because
of a count. -/
theorem fits_runAll {session : Session Heap Pointer} (hsound : session.Sound)
    (hroom : Room planned deeper session.scopes) (statements : List Stmt)
    (hplanned : ∀ statement ∈ statements, Planned planned deeper statement)
    (statement : Stmt) (p : Pointer) :
    (runAll statements session).1 ≠ some (statement, .heap (.overflow p)) := by
  induction statements generalizing session with
  | nil =>
    intro hstopped
    cases hstopped
  | cons first later ih =>
    obtain ⟨hfits, hleft⟩ := fits_exec first hsound hroom (hplanned first List.mem_cons_self)
    have hsafe := (safe_exec first hsound).final.1
    unfold runAll
    cases hresult : exec first session with
    | ok _ after =>
      rw [hresult] at hleft hsafe
      exact ih hsafe hleft fun other hmem => hplanned other (List.mem_cons_of_mem _ hmem)
    | error fault after =>
      rw [hresult] at hfits
      intro hstopped
      cases hstopped
      exact hfits p rfl

/-- A fresh session has room for a program with fewer variables than a count
can reach. -/
theorem room_start (source : Source) (limits : Limits) (registry : Registry)
    {statements : List Stmt} (h : Stmt.mostVariables statements + 1 < Heap.maxRefs) :
    Room (Stmt.targets statements) (Stmt.deepest statements)
      (start source limits registry Heap.empty : Session Heap Pointer).scopes where
  named scope outer hlevels entry hentry := by
    obtain ⟨rfl, rfl⟩ := List.cons.inj hlevels
    cases hentry
  enough := by
    unfold Stmt.mostVariables at h
    change 0 + _ + _ + 2 ≤ _
    omega

end Session

end UnitScript
