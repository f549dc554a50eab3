import Mathlib.Data.List.Basic
import UnitScript.Proofs.Table
import UnitScript.Scope

/-!
# Searches in a stack of scopes

A name is searched from the innermost scope outwards, each time by a search of
its own: for the variable, for the number of its scope, and to change its value.
All of them are read one scope at a time, from which it follows that they find
the same variable.

* `variableAt?` is the variable of a name in one scope, and `Holds` says that
  there is one.  `variableAt?_cons`, `resolve?_cons` and `lookup?_cons` take one
  scope off the stack.
* `resolve?_eq_some_iff`, `lookup?_eq`, `shadows_iff` and `update?_of_resolve?`
  say what the searches find.
* `Op` is an operation on a stack.  `depth_applyAll_ne_zero` says that the global
  scope is not closed, and `levels_applyAll` that operations inside a scope leave
  the scopes outside it.
* `searches_agree` is the whole statement.
-/

namespace UnitScript.Scopes

variable {ρ : Type}

/-! ## One scope at a time -/

theorem scope?_cons (scope : Scope ρ) (outer : List (Scope ρ)) (id : Nat) :
    scope? ⟨scope :: outer⟩ id = if id = outer.length then some scope else scope? ⟨outer⟩ id := by
  unfold scope? fromGlobal
  simp only [List.reverse_cons]
  split
  · next hid => rw [hid, ← List.length_reverse, List.getElem?_concat_length]
  · next hid =>
      by_cases hinner : id < outer.length
      · rw [List.getElem?_append_left (by rwa [List.length_reverse])]
      · have hlength : outer.reverse.length < id := by
          rw [List.length_reverse]
          omega
        rw [List.getElem?_eq_none (by rw [List.length_append]; exact hlength),
          List.getElem?_eq_none (Nat.le_of_lt hlength)]

/-- A scope that is not open has no number. -/
theorem scope?_eq_none {scopes : Scopes ρ} {id : Nat} (h : scopes.depth ≤ id) :
    scopes.scope? id = none := by
  unfold scope? fromGlobal
  rw [List.getElem?_eq_none (by rwa [List.length_reverse])]

/-- The variable of a name in the scope with number `id`. -/
def variableAt? (scopes : Scopes ρ) (id : Nat) (name : String) : Option (Variable ρ) :=
  (scopes.scope? id).bind (·.get? name)

/-- The scope with number `id` holds a name. -/
def Holds (scopes : Scopes ρ) (id : Nat) (name : String) : Prop :=
  ∃ scope, scopes.scope? id = some scope ∧ scope.contains name = true

theorem holds_iff {scopes : Scopes ρ} {id : Nat} {name : String} :
    scopes.Holds id name ↔ ∃ held, scopes.variableAt? id name = some held := by
  unfold Holds variableAt?
  simp only [Option.bind_eq_some_iff, Table.contains, Option.isSome_iff_exists]
  exact ⟨fun ⟨scope, hscope, held, hheld⟩ => ⟨held, scope, hscope, hheld⟩,
    fun ⟨held, scope, hscope, hheld⟩ => ⟨scope, hscope, held, hheld⟩⟩

theorem variableAt?_cons (scope : Scope ρ) (outer : List (Scope ρ)) (id : Nat) (name : String) :
    variableAt? ⟨scope :: outer⟩ id name =
      if id = outer.length then scope.get? name else variableAt? ⟨outer⟩ id name := by
  unfold variableAt?
  rw [scope?_cons]
  split <;> rfl

theorem variableAt?_eq_none {scopes : Scopes ρ} {id : Nat} (h : scopes.depth ≤ id)
    (name : String) : scopes.variableAt? id name = none := by
  unfold variableAt?
  rw [scope?_eq_none h]
  rfl

/-- A scope without a name can be left out. -/
theorem variableAt?_cons_of_none {scope : Scope ρ} {name : String} (h : scope.get? name = none)
    (outer : List (Scope ρ)) (id : Nat) :
    variableAt? ⟨scope :: outer⟩ id name = variableAt? ⟨outer⟩ id name := by
  rw [variableAt?_cons]
  split
  · next hid => rw [h, variableAt?_eq_none (Nat.le_of_eq hid.symm)]
  · rfl

theorem Holds.lt {scopes : Scopes ρ} {id : Nat} {name : String} (h : scopes.Holds id name) :
    id < scopes.depth := by
  obtain ⟨scope, hscope, _⟩ := h
  refine Nat.lt_of_not_le fun hle => ?_
  rw [scope?_eq_none hle] at hscope
  cases hscope

theorem resolve?_cons (scope : Scope ρ) (outer : List (Scope ρ)) (name : String) :
    resolve? ⟨scope :: outer⟩ name =
      if (scope.get? name).isSome then some outer.length else resolve? ⟨outer⟩ name := by
  unfold resolve? depth
  rw [List.findIdx?_cons]
  change Option.map _ (if (scope.get? name).isSome then _ else _) = _
  split
  · rfl
  · rw [Option.map_map]
    congr 1
    funext index
    simp only [Function.comp, List.length_cons]
    omega

theorem lookup?_cons (scope : Scope ρ) (outer : List (Scope ρ)) (name : String) :
    lookup? ⟨scope :: outer⟩ name = (scope.get? name).or (lookup? ⟨outer⟩ name) := by
  unfold lookup?
  rw [List.findSome?_cons]
  cases scope.get? name <;> rfl

/-! ## What the searches find -/

/-- The innermost scope that holds a name has the largest number. -/
theorem resolve?_eq_some_iff {scopes : Scopes ρ} {name : String} {id : Nat} :
    scopes.resolve? name = some id ↔
      scopes.Holds id name ∧ ∀ other, scopes.Holds other name → other ≤ id := by
  obtain ⟨levels⟩ := scopes
  induction levels with
  | nil =>
    refine iff_of_false nofun ?_
    rintro ⟨hholds, _⟩
    exact absurd hholds.lt (Nat.not_lt_zero id)
  | cons scope outer ih =>
    rw [resolve?_cons]
    cases hget : scope.get? name with
    | none =>
      simp only [holds_iff, variableAt?_cons_of_none hget] at ih ⊢
      exact ih
    | some held =>
      have hhere : Holds ⟨scope :: outer⟩ outer.length name := by
        rw [holds_iff]
        exact ⟨held, by rw [variableAt?_cons, if_pos rfl, hget]⟩
      rw [Option.isSome_some, if_pos rfl, Option.some.injEq]
      constructor
      · rintro rfl
        exact ⟨hhere, fun other hother => Nat.le_of_lt_succ hother.lt⟩
      · rintro ⟨hholds, hgreatest⟩
        exact Nat.le_antisymm (hgreatest _ hhere) (Nat.le_of_lt_succ hholds.lt)

/-- The variable that is found is the one in the scope that is found. -/
theorem lookup?_eq (scopes : Scopes ρ) (name : String) :
    scopes.lookup? name = (scopes.resolve? name).bind (scopes.variableAt? · name) := by
  obtain ⟨levels⟩ := scopes
  induction levels with
  | nil => rfl
  | cons scope outer ih =>
    rw [lookup?_cons, resolve?_cons]
    cases hget : scope.get? name with
    | none =>
      simp only [variableAt?_cons_of_none hget]
      exact ih
    | some held =>
      change some held = variableAt? ⟨scope :: outer⟩ outer.length name
      rw [variableAt?_cons, if_pos rfl, hget]

/-- A name that some scope holds is found with its variable. -/
theorem exists_of_resolve? {scopes : Scopes ρ} {name : String} {id : Nat}
    (h : scopes.resolve? name = some id) :
    ∃ held, scopes.variableAt? id name = some held ∧ scopes.lookup? name = some held := by
  obtain ⟨held, hheld⟩ := holds_iff.1 (resolve?_eq_some_iff.1 h).1
  refine ⟨held, hheld, ?_⟩
  rw [lookup?_eq, h]
  exact hheld

theorem resolve?_eq_none_iff {scopes : Scopes ρ} {name : String} :
    scopes.resolve? name = none ↔ scopes.lookup? name = none := by
  cases h : scopes.resolve? name with
  | none =>
    rw [lookup?_eq, h]
    exact iff_of_true rfl rfl
  | some id =>
    obtain ⟨held, _, hlookup⟩ := exists_of_resolve? h
    rw [hlookup]
    exact iff_of_false nofun nofun

theorem shadows_iff {scopes : Scopes ρ} {id : Nat} {name : String} :
    scopes.shadows id name = true ↔ ∃ outer < id, scopes.Holds outer name := by
  unfold shadows Holds scope?
  rw [List.any_eq_true]
  constructor
  · rintro ⟨scope, hmem, hcontains⟩
    obtain ⟨outer, hlt, rfl⟩ := List.mem_take_iff_getElem.1 hmem
    exact ⟨outer, by omega, _, List.getElem?_eq_getElem (by omega), hcontains⟩
  · rintro ⟨outer, hlt, scope, hscope, hcontains⟩
    obtain ⟨hlength, rfl⟩ := List.getElem?_eq_some_iff.1 hscope
    exact ⟨_, List.mem_take_iff_getElem.2 ⟨outer, by omega, rfl⟩, hcontains⟩

/-! ## Writing -/

/-- Writing goes into the innermost scope if that holds the name, and into the
scopes outside it otherwise. -/
theorem update?_cons (scope : Scope ρ) (outer : List (Scope ρ)) (name : String)
    (value : Value ρ) :
    update? ⟨scope :: outer⟩ name value =
      match scope.get? name with
      | some held => some ⟨scope.insert name { held with value := value } :: outer⟩
      | none => (update? ⟨outer⟩ name value).map fun after => ⟨scope :: after.levels⟩ := by
  unfold update?
  rw [updateFirst?]
  cases scope.get? name with
  | some held => rfl
  | none =>
    change Option.map _ (Option.map _ _) = Option.map _ (Option.map _ _)
    rw [Option.map_map, Option.map_map]
    rfl

/-- Writing changes the variable that is found and no other. -/
theorem update?_of_resolve? {scopes : Scopes ρ} {name : String} {id : Nat} {held : Variable ρ}
    (hid : scopes.resolve? name = some id) (hheld : scopes.variableAt? id name = some held)
    (value : Value ρ) :
    ∃ after, scopes.update? name value = some after ∧ after.depth = scopes.depth ∧
      ∀ id' name', after.variableAt? id' name' =
        if id' = id ∧ name' = name then some { held with value := value }
        else scopes.variableAt? id' name' := by
  obtain ⟨levels⟩ := scopes
  induction levels with
  | nil => cases hid
  | cons scope outer ih =>
    rw [resolve?_cons] at hid
    rw [update?_cons]
    cases hget : scope.get? name with
    | some found =>
      rw [hget, Option.isSome_some, if_pos rfl, Option.some.injEq] at hid
      subst hid
      rw [variableAt?_cons, if_pos rfl, hget, Option.some.injEq] at hheld
      subst hheld
      refine ⟨_, rfl, rfl, fun id' name' => ?_⟩
      rw [variableAt?_cons, variableAt?_cons, Table.get?_insert]
      by_cases hsame : id' = outer.length
      · simp only [hsame, if_true, true_and]
      · simp only [hsame, if_false, false_and]
    | none =>
      rw [hget] at hid
      rw [variableAt?_cons_of_none hget] at hheld
      obtain ⟨after, hafter, hdepth, hvariables⟩ := ih hid hheld
      have hinner : id < outer.length := (resolve?_eq_some_iff.1 hid).1.lt
      rw [hafter]
      refine ⟨_, rfl, congrArg (· + 1) hdepth, fun id' name' => ?_⟩
      have hlength : after.levels.length = outer.length := hdepth
      rw [variableAt?_cons, variableAt?_cons, hlength]
      by_cases hsame : id' = outer.length
      · have hother : ¬(id' = id ∧ name' = name) := by omega
        rw [if_pos hsame, if_neg hother, if_pos hsame]
      · rw [if_neg hsame, if_neg hsame]
        exact hvariables id' name'

theorem update?_eq_none {scopes : Scopes ρ} {name : String} (h : scopes.resolve? name = none)
    (value : Value ρ) : scopes.update? name value = none := by
  obtain ⟨levels⟩ := scopes
  induction levels with
  | nil => rfl
  | cons scope outer ih =>
    rw [resolve?_cons] at h
    rw [update?_cons]
    cases hget : scope.get? name with
    | some found =>
      rw [hget] at h
      cases h
    | none =>
      rw [hget] at h
      simp only
      rw [ih h, Option.map_none]

/-! ## Runs of operations -/

/-- An operation on a stack of scopes. -/
inductive Op (ρ : Type) where
  | openScope
  | closeScope
  | declare (name : String) (declared : Variable ρ)
  | update (name : String) (value : Value ρ)

/-- The stack after an operation.  One that fails leaves it. -/
def apply (scopes : Scopes ρ) : Op ρ → Scopes ρ
  | .openScope => scopes.openScope
  | .closeScope => scopes.closeScope.2
  | .declare name declared =>
      match scopes.declare name declared with
      | .ok (_, after) => after
      | .error _ => scopes
  | .update name value => (scopes.update? name value).getD scopes

def applyAll (scopes : Scopes ρ) (ops : List (Op ρ)) : Scopes ρ := ops.foldl apply scopes

theorem depth_update? {scopes after : Scopes ρ} {name : String} {value : Value ρ}
    (h : scopes.update? name value = some after) : after.depth = scopes.depth := by
  cases hid : scopes.resolve? name with
  | none =>
    rw [update?_eq_none hid] at h
    cases h
  | some id =>
    obtain ⟨held, hheld, _⟩ := exists_of_resolve? hid
    obtain ⟨after', hafter, hdepth, _⟩ := update?_of_resolve? hid hheld value
    rw [hafter] at h
    cases h
    exact hdepth

/-- No operation closes the global scope. -/
theorem depth_apply_ne_zero {scopes : Scopes ρ} (h : scopes.depth ≠ 0) (op : Op ρ) :
    (scopes.apply op).depth ≠ 0 := by
  cases op with
  | openScope => exact Nat.succ_ne_zero _
  | closeScope =>
    obtain ⟨levels⟩ := scopes
    rcases levels with _ | ⟨inner, _ | ⟨outer, rest⟩⟩
    · exact h
    · exact h
    · exact Nat.succ_ne_zero _
  | declare name declared =>
    obtain ⟨levels⟩ := scopes
    cases levels with
    | nil => exact h
    | cons scope outer => exact Nat.succ_ne_zero _
  | update name value =>
    change ((scopes.update? name value).getD scopes).depth ≠ 0
    cases hafter : scopes.update? name value with
    | none => exact h
    | some after =>
      rw [Option.getD_some, depth_update? hafter]
      exact h

theorem depth_applyAll_ne_zero {scopes : Scopes ρ} (h : scopes.depth ≠ 0) (ops : List (Op ρ)) :
    (scopes.applyAll ops).depth ≠ 0 := by
  induction ops generalizing scopes with
  | nil => exact h
  | cons op later ih => exact ih (depth_apply_ne_zero h op)

/-- Closing a scope leaves the global one. -/
theorem globalScope_closeScope (scopes : Scopes ρ) :
    scopes.closeScope.2.globalScope = scopes.globalScope := by
  obtain ⟨levels⟩ := scopes
  rcases levels with _ | ⟨inner, _ | ⟨outer, rest⟩⟩
  · rfl
  · rfl
  · unfold globalScope closeScope
    rw [List.getLast?_cons_cons]

/-- How many scopes are open after operations that open, close and declare, if
`count` were opened before.  Operations that close another one have no count. -/
def opened (count : Nat) : List (Op ρ) → Option Nat
  | [] => some count
  | .openScope :: later => opened (count + 1) later
  | .closeScope :: later =>
      match count with
      | 0 => none
      | count + 1 => opened count later
  | .declare .. :: later => opened count later
  | .update .. :: _ => none

theorem opened_append (front later : List (Op ρ)) (count : Nat) :
    opened count (front ++ later) = (opened count front).bind (opened · later) := by
  induction front generalizing count with
  | nil => rfl
  | cons op rest ih =>
    cases op with
    | openScope => exact ih (count + 1)
    | closeScope =>
      cases count with
      | zero => rfl
      | succ count => exact ih count
    | declare name declared => exact ih count
    | update name value => rfl

/-- Operations inside a scope leave the scopes outside it. -/
theorem levels_applyAll {ops : List (Op ρ)} {count after : Nat}
    (h : opened count ops = some after) (inner : List (Scope ρ)) (hinner : inner.length = count + 1)
    (outer : List (Scope ρ)) :
    ∃ inner', inner'.length = after + 1 ∧ applyAll ⟨inner ++ outer⟩ ops = ⟨inner' ++ outer⟩ := by
  induction ops generalizing count inner with
  | nil =>
    cases h
    exact ⟨inner, hinner, rfl⟩
  | cons op later ih =>
    obtain ⟨scope, inner, rfl⟩ := List.exists_cons_of_length_eq_add_one hinner
    cases op with
    | openScope =>
      exact ih h (∅ :: scope :: inner) (congrArg (· + 1) hinner)
    | closeScope =>
      cases count with
      | zero => cases h
      | succ count =>
        have hrest : inner.length = count + 1 := Nat.succ.inj hinner
        obtain ⟨next, inner, rfl⟩ := List.exists_cons_of_length_eq_add_one hrest
        exact ih h (next :: inner) hrest
    | declare name declared =>
      exact ih h (scope.insert name declared :: inner) hinner
    | update name value => cases h

/-- Whatever is opened, closed and declared in a scope is gone once that is
closed. -/
theorem applyAll_balanced {scopes : Scopes ρ} (h : scopes.depth ≠ 0) {inside : List (Op ρ)}
    (hinside : opened 0 inside = some 0) :
    scopes.applyAll (.openScope :: inside ++ [.closeScope]) = scopes := by
  obtain ⟨levels⟩ := scopes
  obtain ⟨scope, outer, rfl⟩ := List.exists_cons_of_ne_nil (List.ne_nil_of_length_pos
    (Nat.pos_of_ne_zero h))
  obtain ⟨inner, hlength, hinner⟩ := levels_applyAll hinside [∅] rfl (scope :: outer)
  obtain ⟨last, rfl⟩ := List.length_eq_one_iff.1 hlength
  unfold applyAll at hinner ⊢
  rw [List.foldl_append, List.foldl_cons]
  change (List.foldl apply ⟨∅ :: scope :: outer⟩ inside).apply .closeScope = _
  rw [show (⟨∅ :: scope :: outer⟩ : Scopes ρ) = ⟨[∅] ++ scope :: outer⟩ from rfl, hinner]
  rfl

/-- All searches of a stack of scopes mean the same variable.  The scope that a
name is resolved to is the one with the largest number among those that hold the
name, the variable that is found is the one in there, and there is none if and
only if no scope is found.  A name shadows in a scope if one with a smaller number
holds it too.  Writing changes the value of the variable that is found and no
other variable.

The global scope is never closed.  In a stack that has it, a scope that is opened
and closed again leaves all scopes as they were, whatever was opened, closed and
declared inside it, and meanwhile they stay below it. -/
theorem searches_agree (scopes : Scopes ρ) :
    (∀ name id, scopes.resolve? name = some id ↔
      scopes.Holds id name ∧ ∀ other, scopes.Holds other name → other ≤ id) ∧
    (∀ name id, scopes.resolve? name = some id →
      ∃ held, scopes.variableAt? id name = some held ∧ scopes.lookup? name = some held) ∧
    (∀ name, scopes.resolve? name = none ↔ scopes.lookup? name = none) ∧
    (∀ id name, scopes.shadows id name = true ↔ ∃ outer < id, scopes.Holds outer name) ∧
    (∀ name value, scopes.lookup? name = none → scopes.update? name value = none) ∧
    (∀ name value id held, scopes.resolve? name = some id →
      scopes.variableAt? id name = some held →
        ∃ after, scopes.update? name value = some after ∧ after.depth = scopes.depth ∧
          ∀ id' name', after.variableAt? id' name' =
            if id' = id ∧ name' = name then some { held with value := value }
            else scopes.variableAt? id' name') ∧
    scopes.closeScope.2.globalScope = scopes.globalScope ∧
    (scopes.depth ≠ 0 →
      (∀ ops, (scopes.applyAll ops).depth ≠ 0) ∧
      ∀ inside, opened 0 inside = some 0 →
        scopes.applyAll (.openScope :: inside ++ [.closeScope]) = scopes ∧
        ∀ front, front <+: inside →
          ∃ inner, (scopes.applyAll (.openScope :: front)).levels = inner ++ scopes.levels) := by
  refine ⟨fun name id => resolve?_eq_some_iff, fun name id => exists_of_resolve?,
    fun name => resolve?_eq_none_iff, fun id name => shadows_iff,
    fun name value h => update?_eq_none (resolve?_eq_none_iff.2 h) value,
    fun name value id held hid hheld => update?_of_resolve? hid hheld value,
    globalScope_closeScope scopes,
    fun h => ⟨depth_applyAll_ne_zero h, fun inside hinside => ⟨applyAll_balanced h hinside, ?_⟩⟩⟩
  rintro front ⟨later, rfl⟩
  rw [opened_append] at hinside
  obtain ⟨count, hfront, _⟩ := Option.bind_eq_some_iff.1 hinside
  obtain ⟨inner, _, hinner⟩ := levels_applyAll hfront [∅] rfl scopes.levels
  exact ⟨inner, congrArg levels hinner⟩

end UnitScript.Scopes
