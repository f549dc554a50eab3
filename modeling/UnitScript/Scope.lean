import UnitScript.Units.Measure
import UnitScript.Value.Basic

/-!
# Scopes

A `Scope` holds the variables of one block in the order of their names.
`Scopes` is the stack of the blocks that are open; a name is looked up from
the innermost scope outwards.  Scopes are numbered from the global one, which
has the number zero and, once opened, is never closed.

* `openScope` and `closeScope` push and pop.
* `declare` puts a variable into the innermost scope.
* `lookup?` finds a variable, `resolve?` the scope that holds it, `update?`
  changes its value.
-/

namespace UnitScript

/-- A value and its unit, if it has one. -/
structure Variable (ρ : Type) where
  value : Value ρ
  unit : Option Binding
deriving DecidableEq

/-- The variables of one block by name. -/
abbrev Scope (ρ : Type) := Table (Variable ρ)

/-- The open scopes, the innermost one first. -/
structure Scopes (ρ : Type) where
  levels : List (Scope ρ)

/-- What can go wrong with a stack of scopes. -/
inductive Scopes.Error where
  | noScope
deriving DecidableEq

namespace Scopes

/-- The wording of an error. -/
def Error.message : Error → String
  | .noScope => "no scope has been opened"

variable {ρ : Type}

/-- The stack without scopes. -/
def empty : Scopes ρ := ⟨[]⟩

/-- The stack with an empty global scope. -/
def global : Scopes ρ := ⟨[∅]⟩

/-- The number of open scopes. -/
def depth (scopes : Scopes ρ) : Nat := scopes.levels.length

/-- Opens a scope.  Its number is the depth before. -/
def openScope (scopes : Scopes ρ) : Scopes ρ := ⟨∅ :: scopes.levels⟩

/-- Closes the innermost scope and gives it back.  The global scope stays. -/
def closeScope (scopes : Scopes ρ) : Option (Scope ρ) × Scopes ρ :=
  match scopes.levels with
  | inner :: outer :: rest => (some inner, ⟨outer :: rest⟩)
  | _ => (none, scopes)

/-- The innermost scope. -/
def current (scopes : Scopes ρ) : Except Error (Scope ρ) :=
  match scopes.levels with
  | [] => .error .noScope
  | scope :: _ => .ok scope

/-- The number of the innermost scope. -/
def currentId (scopes : Scopes ρ) : Except Error Nat :=
  match scopes.levels with
  | [] => .error .noScope
  | _ :: outer => .ok outer.length

/-- The global scope. -/
def globalScope (scopes : Scopes ρ) : Except Error (Scope ρ) :=
  match scopes.levels.getLast? with
  | none => .error .noScope
  | some scope => .ok scope

/-- The scopes from the global one inwards, so that each stands at its
number. -/
def fromGlobal (scopes : Scopes ρ) : List (Scope ρ) := scopes.levels.reverse

/-- The scope with number `id`. -/
def scope? (scopes : Scopes ρ) (id : Nat) : Option (Scope ρ) := scopes.fromGlobal[id]?

/-- Puts a variable into the innermost scope and gives back the one it
replaces. -/
def declare (scopes : Scopes ρ) (name : String) (declared : Variable ρ) :
    Except Error (Option (Variable ρ) × Scopes ρ) :=
  match scopes.levels with
  | [] => .error .noScope
  | scope :: outer => .ok (scope.get? name, ⟨scope.insert name declared :: outer⟩)

/-- The variable that a name stands for. -/
def lookup? (scopes : Scopes ρ) (name : String) : Option (Variable ρ) :=
  scopes.levels.findSome? fun scope => scope.get? name

/-- The number of the innermost scope that holds a name. -/
def resolve? (scopes : Scopes ρ) (name : String) : Option Nat :=
  (scopes.levels.findIdx? fun scope => scope.contains name).map fun index =>
    scopes.depth - 1 - index

/-- Whether a scope outside the one with number `id` holds `name` too. -/
def shadows (scopes : Scopes ρ) (id : Nat) (name : String) : Bool :=
  (scopes.fromGlobal.take id).any fun scope => scope.contains name

/-- Changes the value of `name` in the first scope of the list that holds it. -/
def updateFirst? (name : String) (value : Value ρ) : List (Scope ρ) → Option (List (Scope ρ))
  | [] => none
  | scope :: outer =>
      match scope.get? name with
      | some held => some (scope.insert name { held with value := value } :: outer)
      | none => (updateFirst? name value outer).map (scope :: ·)

/-- Changes the value of the variable that a name stands for, if there is
one. -/
def update? (scopes : Scopes ρ) (name : String) (value : Value ρ) : Option (Scopes ρ) :=
  (updateFirst? name value scopes.levels).map (⟨·⟩)

end Scopes

end UnitScript
