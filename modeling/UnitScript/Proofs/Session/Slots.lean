import UnitScript.Proofs.Scopes
import UnitScript.Proofs.Session.Frames
import UnitScript.Proofs.Session.Rollback

/-!
# Slots

A slot is a name of one open scope, whichever scopes are opened inside it
meanwhile.  Statements change slots of the innermost scope only, and only those
that they assign to.

* `Scopes.bindingAt?` is the binding of the variable in a slot; its lemmas say
  what opening and closing scopes and putting variables into them do to it.
* `bindingAt?_assign` and `bindingAt?_exec` say which assignments and statements
  leave the binding of a slot.
-/

namespace UnitScript

/-! ## Slots -/

/-- A name of one scope.  Scopes are numbered from the global one. -/
structure Slot where
  scope : Nat
  name : String
deriving DecidableEq

namespace Scopes

variable {ρ : Type}

/-- The binding of the variable in a slot. -/
def bindingAt? (scopes : Scopes ρ) (slot : Slot) : Option Binding :=
  ((scopes.scope? slot.scope).bind (·.get? slot.name)).bind (·.unit)

/-- The slot is in the innermost scope. -/
def Innermost (scopes : Scopes ρ) (slot : Slot) : Prop := slot.scope + 1 = scopes.depth

/-- The slot of a name in the innermost scope. -/
def slotOf (scopes : Scopes ρ) (name : String) : Slot := ⟨scopes.depth - 1, name⟩

theorem bindingAt?_cons (scope : Scope ρ) (outer : List (Scope ρ)) (slot : Slot) :
    bindingAt? ⟨scope :: outer⟩ slot =
      if slot.scope = outer.length then (scope.get? slot.name).bind (·.unit)
      else bindingAt? ⟨outer⟩ slot := by
  unfold bindingAt?
  rw [scope?_cons]
  split <;> rfl

/-- A slot of a scope that is not open holds nothing. -/
theorem bindingAt?_eq_none {scopes : Scopes ρ} {slot : Slot} (h : scopes.depth ≤ slot.scope) :
    scopes.bindingAt? slot = none := by
  unfold bindingAt?
  rw [scope?_eq_none h]
  rfl

/-- A variable of the innermost scope is in the slot of its name. -/
theorem bindingAt?_slotOf (scope : Scope ρ) (outer : List (Scope ρ)) (name : String) :
    bindingAt? ⟨scope :: outer⟩ (slotOf ⟨scope :: outer⟩ name) =
      (scope.get? name).bind (·.unit) := by
  rw [bindingAt?_cons]
  exact if_pos rfl

/-- Opening a scope leaves all slots. -/
theorem bindingAt?_openScope (scopes : Scopes ρ) (slot : Slot) :
    scopes.openScope.bindingAt? slot = scopes.bindingAt? slot := by
  unfold openScope
  rw [bindingAt?_cons]
  split
  · next hscope =>
      rw [bindingAt?_eq_none (show scopes.depth ≤ slot.scope from Nat.le_of_eq hscope.symm)]
      rfl
  · rfl

/-- Closing a scope leaves the slots of all others.  The global scope stays. -/
theorem bindingAt?_closeScope {scopes : Scopes ρ} {slot : Slot}
    (h : scopes.Innermost slot → slot.scope = 0) :
    scopes.closeScope.2.bindingAt? slot = scopes.bindingAt? slot := by
  obtain ⟨levels⟩ := scopes
  rcases levels with _ | ⟨inner, _ | ⟨outer, rest⟩⟩
  · rfl
  · rfl
  · have hscope : slot.scope ≠ (outer :: rest).length := by
      intro hscope
      have hzero := h (congrArg (· + 1) hscope)
      rw [hzero] at hscope
      exact Nat.succ_ne_zero _ hscope.symm
    rw [bindingAt?_cons inner, if_neg hscope]
    rfl

/-- Putting a variable into the innermost scope changes the slot of its name
only. -/
theorem bindingAt?_insert (scope : Scope ρ) (outer : List (Scope ρ)) (name : String)
    (held : Variable ρ) (slot : Slot) :
    bindingAt? ⟨scope.insert name held :: outer⟩ slot =
      if slot = slotOf ⟨scope :: outer⟩ name then held.unit
      else bindingAt? ⟨scope :: outer⟩ slot := by
  rw [bindingAt?_cons, bindingAt?_cons]
  by_cases hscope : slot.scope = outer.length
  · by_cases hname : slot.name = name
    · have hslot : slot = slotOf ⟨scope :: outer⟩ name := by
        cases slot
        cases hscope
        cases hname
        rfl
      rw [if_pos hscope, if_pos hslot, Table.get?_insert, if_pos hname]
      rfl
    · have hslot : slot ≠ slotOf ⟨scope :: outer⟩ name := fun heq => hname (congrArg Slot.name heq)
      rw [if_pos hscope, if_neg hslot, if_pos hscope, Table.get?_insert, if_neg hname]
  · have hslot : slot ≠ slotOf ⟨scope :: outer⟩ name := fun heq => hscope (congrArg Slot.scope heq)
    rw [if_neg hscope, if_neg hslot, if_neg hscope]

end Scopes

/-- The statement is an assignment to `name`.  A block is not, whatever it holds. -/
def Stmt.Assigns (name : String) : Stmt → Prop
  | .assign target _ _ => target.text = name
  | _ => False

namespace Session

/-! ## Statements that leave a slot -/

/-- An assignment changes the slot of its name only, and only if it succeeds. -/
theorem bindingAt?_assign {session : Session Heap Pointer} (hsound : session.Sound) (name : String)
    (e : Expr) (slot : Slot) :
    (final (assign name e session)).scopes.bindingAt? slot = session.scopes.bindingAt? slot ∨
      slot = session.scopes.slotOf name ∧ session.scopes.Innermost slot ∧
        ∃ value after, assign name e session = .ok value after := by
  rcases assign_cases hsound name e with
    ⟨fault, after, heq, hscopes⟩ | ⟨value, after, scope, outer, held, hlevels, heq, hscopes⟩
  · left
    rw [heq]
    exact congrArg (·.bindingAt? slot) hscopes
  · have hstack : session.scopes = ⟨scope :: outer⟩ := by rw [← hlevels]
    by_cases hslot : slot = session.scopes.slotOf name
    · refine .inr ⟨hslot, ?_, value, after, heq⟩
      rw [hslot, hstack]
      rfl
    · left
      rw [heq, hstack]
      rw [hstack] at hslot
      change after.scopes.bindingAt? slot = _
      rw [hscopes, Scopes.bindingAt?_insert, if_neg hslot]

/-- A statement that does not assign to the name of a slot in its scope leaves
the binding there, whether it stops or not. -/
theorem bindingAt?_exec {session : Session Heap Pointer} (hsound : session.Sound) (statement : Stmt)
    {slot : Slot} (h : ¬(statement.Assigns slot.name ∧ session.scopes.Innermost slot)) :
    (final (exec statement session)).scopes.bindingAt? slot = session.scopes.bindingAt? slot := by
  cases statement with
  | assign target value span =>
    have hcounted : session.ticked.Sound := ⟨hsound.accounts, hsound.opened⟩
    unfold exec
    rw [tick_bind]
    split
    · rfl
    · rw [final_discard]
      rcases bindingAt?_assign hcounted target.text value slot with hsame | ⟨hslot, hinner, _⟩
      · exact hsame
      · exact absurd ⟨(congrArg Slot.name hslot).symm, hinner⟩ h
  | display value => rw [scopes_display]
  | block body span => rw [scopes_block hsound]

end Session

end UnitScript
