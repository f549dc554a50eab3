import UnitScript.Proofs.Table
import UnitScript.Scope

/-!
# References of the string heap

The heap of a session counts, for each string, the variables that hold it.
This module says what that means and shows that the operations of the heap
keep it.  Nothing here mentions sessions.

* Cells.  `cell?_alloc` and `cell?_setCell` give every cell after an
  operation; later proofs look at the heap through `cell?` only.
* `Shared` says that the table of shared texts and the cells agree;
  `shared_alloc` and `shared_setCell` keep it, and `text?_alloc` reads a text
  back.
* `Accounts heap held` says that the counts are right when exactly the
  variables `held` hold strings: each cell has one reference of the heap and
  one of each variable, and no variable holds a dead pointer.  `Shared` is part
  of it.
* `accounts_alloc`, `accounts_addRef` and `accounts_release` are what one
  operation does to the account.
* `Keeps` says that no string goes away, `Grows` that strings are only added.
  Between two heaps with the same account the two are the same thing.
-/

namespace UnitScript

/-- How many of the variables `held` hold `p`. -/
def Pointer.holders (p : Pointer) (held : List (Variable Pointer)) : Nat :=
  held.countP fun holder => holder.value = .pointer p

/-- The value refers to a cell of the heap if it is a pointer. -/
def Value.Live (heap : Heap) (value : Value Pointer) : Prop :=
  ∀ p, value = .pointer p → heap.isAlive p = true

namespace Heap

/-! ## Cells after an operation -/

theorem isAlive_iff {heap : Heap} {p : Pointer} :
    heap.isAlive p = true ↔ ∃ cell, heap.cell? p = some cell := by
  rw [isAlive, Option.isSome_iff_exists]

theorem text?_eq_some_iff {heap : Heap} {p : Pointer} {text : String} :
    heap.text? p = some text ↔ ∃ cell, heap.cell? p = some cell ∧ cell.text = text := by
  rw [text?, Option.map_eq_some_iff]

theorem isAlive_iff_text? {heap : Heap} {p : Pointer} :
    heap.isAlive p = true ↔ ∃ text, heap.text? p = some text := by
  rw [isAlive, text?, ← Option.isSome_map (f := (·.text)), Option.isSome_iff_exists]

/-- Only the slot that is written changes. -/
theorem cell?_setCell {heap : Heap} {p : Pointer} {cell : Cell} (h : heap.cell? p = some cell)
    (content : Option Cell) (q : Pointer) :
    (heap.setCell p content).cell? q = if q = p then content else heap.cell? q := by
  obtain ⟨_ | i⟩ := p
  · cases h
  have hi : i < heap.cells.size := by
    apply Nat.lt_of_not_le
    intro hge
    simp only [cell?, Array.getElem?_eq_none hge] at h
    cases h
  obtain ⟨_ | j⟩ := q
  · rw [if_neg (by simp)]
    rfl
  · simp only [cell?, setCell, Nat.add_sub_cancel, Array.getElem?_setIfInBounds, hi, if_true]
    by_cases hij : i = j
    · simp [hij]
    · have hji : ¬ j = i := fun h => hij h.symm
      simp [hij, hji]

/-- The id that the next new cell gets is not in use. -/
theorem cell?_next (heap : Heap) : heap.cell? ⟨heap.cells.size + 1⟩ = none := by
  simp [cell?]

/-- A text that is not in the heap gets a new cell with one reference, and all
other cells stay. -/
theorem cell?_alloc {heap : Heap} {text : String} (h : heap.interned.get? text = none)
    (q : Pointer) :
    (heap.alloc text).2.cell? q =
      if q = (heap.alloc text).1 then some ⟨text, 1⟩ else heap.cell? q := by
  simp only [alloc, h]
  obtain ⟨_ | j⟩ := q
  · rw [if_neg (by simp)]
    rfl
  · simp only [cell?, Array.getElem?_push, Pointer.mk.injEq, Nat.add_right_cancel_iff]
    split <;> rfl

/-- A pointer to a text that is not in the heap is new. -/
theorem cell?_alloc_fst {heap : Heap} {text : String} (h : heap.interned.get? text = none) :
    heap.cell? (heap.alloc text).1 = none := by
  simp only [alloc, h]
  exact cell?_next heap

/-! ## Shared texts -/

/-- The table of shared texts lists the cells. -/
def Shared (heap : Heap) : Prop :=
  ∀ text p, heap.interned.get? text = some p ↔ heap.text? p = some text

/-- Equal texts have the same pointer. -/
theorem Shared.text?_inj {heap : Heap} (h : heap.Shared) {p q : Pointer} {text : String}
    (hp : heap.text? p = some text) (hq : heap.text? q = some text) : p = q := by
  have hp' := (h text p).2 hp
  rw [(h text q).2 hq] at hp'
  exact (Option.some.inj hp').symm

/-- A text that is not in the heap is shared from now on. -/
theorem shared_alloc {heap : Heap} (h : heap.Shared) (text : String) :
    (heap.alloc text).2.Shared := by
  cases hget : heap.interned.get? text with
  | some p =>
    have heq : heap.alloc text = (p, heap) := by simp only [alloc, hget]
    rw [heq]
    exact h
  | none =>
    have hinterned (other : String) : (heap.alloc text).2.interned.get? other =
        if other = text then some (heap.alloc text).1 else heap.interned.get? other := by
      simp only [alloc, hget]
      exact Table.get?_insert _ _ _ _
    have htext (q : Pointer) : (heap.alloc text).2.text? q =
        if q = (heap.alloc text).1 then some text else heap.text? q := by
      rw [text?, cell?_alloc hget]
      split <;> rfl
    have hnone : heap.text? (heap.alloc text).1 = none := by
      rw [text?, cell?_alloc_fst hget]
      rfl
    generalize heap.alloc text = result at hinterned htext hnone ⊢
    obtain ⟨p, after⟩ := result
    simp only at hinterned htext hnone ⊢
    intro other q
    rw [hinterned, htext]
    by_cases ho : other = text <;> by_cases hq : q = p
    · simp [ho, hq]
    · have hno : ¬ heap.text? q = some text := by
        rw [← h, hget]
        exact nofun
      simp [ho, hq, hno, Ne.symm hq]
    · have hno : ¬ heap.interned.get? other = some p := by
        rw [h, hnone]
        exact nofun
      simp [ho, hq, hno, Ne.symm ho]
    · simp only [ho, hq, if_false]
      exact h other q

/-- The pointer of a text refers to that text. -/
theorem text?_alloc {heap : Heap} (h : heap.Shared) (text : String) :
    (heap.alloc text).2.text? (heap.alloc text).1 = some text := by
  cases hget : heap.interned.get? text with
  | some p =>
    have heq : heap.alloc text = (p, heap) := by simp only [alloc, hget]
    rw [heq]
    exact (h text p).1 hget
  | none =>
    rw [text?, cell?_alloc hget, if_pos rfl]
    rfl

/-- A count has nothing to do with what is shared. -/
theorem shared_setCell {heap : Heap} (h : heap.Shared) {p : Pointer} {cell : Cell}
    (hcell : heap.cell? p = some cell) (refs : Nat) :
    (heap.setCell p (some { cell with refs := refs })).Shared := by
  intro text q
  have hiff := h text q
  rw [text?, cell?_setCell hcell]
  by_cases hqp : q = p
  · subst hqp
    rw [text?, hcell] at hiff
    rw [if_pos rfl]
    exact hiff
  · rw [if_neg hqp]
    exact hiff

/-! ## Keeping strings -/

/-- Every string of `before` is in `after`, under the same pointer. -/
def Keeps (before after : Heap) : Prop :=
  ∀ p text, before.text? p = some text → after.text? p = some text

theorem Keeps.refl (heap : Heap) : heap.Keeps heap := fun _ _ h => h

theorem Keeps.trans {a b c : Heap} (hab : a.Keeps b) (hbc : b.Keeps c) : a.Keeps c :=
  fun p text h => hbc p text (hab p text h)

theorem Keeps.isAlive {before after : Heap} (h : before.Keeps after) {p : Pointer}
    (hp : before.isAlive p = true) : after.isAlive p = true := by
  obtain ⟨text, htext⟩ := isAlive_iff_text?.1 hp
  exact isAlive_iff_text?.2 ⟨text, h p text htext⟩

theorem Keeps.live {before after : Heap} (h : before.Keeps after) {value : Value Pointer}
    (hvalue : value.Live before) : value.Live after :=
  fun p hp => h.isAlive (hvalue p hp)

/-- A count can change without any string going away. -/
theorem keeps_setCell {heap : Heap} {p : Pointer} {cell : Cell} (h : heap.cell? p = some cell)
    (refs : Nat) : heap.Keeps (heap.setCell p (some { cell with refs := refs })) := by
  intro q text hq
  rw [text?, cell?_setCell h]
  by_cases hqp : q = p
  · subst hqp
    rw [text?, h] at hq
    simpa using hq
  · rw [if_neg hqp]
    exact hq

/-- `after` has the cells of `before` with their counts, and every other cell
has the reference of the heap only. -/
structure Grows (before after : Heap) : Prop where
  cells : ∀ p cell, before.cell? p = some cell → after.cell? p = some cell
  fresh : ∀ p cell, before.cell? p = none → after.cell? p = some cell → cell.refs = 1

/-! ## The account of references -/

/-- The counts of `heap` are right when the variables that hold strings are
`held`. -/
structure Accounts (heap : Heap) (held : List (Variable Pointer)) : Prop where
  /-- The table of shared texts lists the cells. -/
  shared : ∀ text p, heap.interned.get? text = some p ↔ heap.text? p = some text
  /-- A cell has the reference of the heap and one of each variable. -/
  refs : ∀ p cell, heap.cell? p = some cell → cell.refs = 1 + p.holders held
  /-- Variables hold pointers to cells. -/
  live : ∀ holder ∈ held, holder.value.Live heap

theorem accounts_empty : empty.Accounts [] where
  shared text p := by
    constructor
    · intro h
      cases h
    · intro h
      obtain ⟨cell, hcell, _⟩ := text?_eq_some_iff.1 h
      obtain ⟨_ | i⟩ := p <;> simp [cell?, empty] at hcell
  refs p cell h := by
    obtain ⟨_ | i⟩ := p <;> simp [cell?, empty] at h
  live holder h := by cases h

/-- Nobody holds a pointer that is not alive. -/
theorem Accounts.holders_eq_zero {heap : Heap} {held : List (Variable Pointer)}
    (h : heap.Accounts held) {p : Pointer} (hp : heap.cell? p = none) : p.holders held = 0 := by
  rw [Pointer.holders, List.countP_eq_zero]
  intro holder hmem hvalue
  have halive := h.live holder hmem p (by simpa using hvalue)
  obtain ⟨cell, hcell⟩ := isAlive_iff.1 halive
  rw [hp] at hcell
  cases hcell

/-- Equal texts have the same pointer. -/
theorem Accounts.text?_inj {heap : Heap} {held : List (Variable Pointer)}
    (h : heap.Accounts held) {p q : Pointer} {text : String} (hp : heap.text? p = some text)
    (hq : heap.text? q = some text) : p = q :=
  Shared.text?_inj h.shared hp hq

/-- Between heaps that account for the same variables, a string that is kept
has kept its count, and a string that is new has the reference of the heap
only. -/
theorem Accounts.grows {before after : Heap} {held : List (Variable Pointer)}
    (hbefore : before.Accounts held) (hafter : after.Accounts held)
    (hkeeps : before.Keeps after) : before.Grows after where
  cells p cell hcell := by
    obtain ⟨cell', hcell', htext⟩ :=
      text?_eq_some_iff.1 (hkeeps p cell.text (text?_eq_some_iff.2 ⟨cell, hcell, rfl⟩))
    have hrefs : cell'.refs = cell.refs := by
      rw [hbefore.refs p cell hcell, hafter.refs p cell' hcell']
    obtain ⟨text, refs⟩ := cell
    obtain ⟨text', refs'⟩ := cell'
    simp only at htext hrefs
    rw [hcell', htext, hrefs]
  fresh p cell hnone hcell := by
    rw [hafter.refs p cell hcell, hbefore.holders_eq_zero hnone]

/-- The order of the variables does not matter. -/
theorem Accounts.perm {heap : Heap} {held held' : List (Variable Pointer)}
    (h : heap.Accounts held) (hperm : held.Perm held') : heap.Accounts held' where
  shared := h.shared
  refs p cell hcell := by
    rw [h.refs p cell hcell, Pointer.holders, Pointer.holders, hperm.countP_eq]
  live holder hmem := h.live holder (hperm.mem_iff.2 hmem)

/-! ## What one operation does to the account -/

/-- The pointer of a text refers to that text, and finding or making it leaves
all references as they are. -/
theorem accounts_alloc {heap : Heap} {held : List (Variable Pointer)} (h : heap.Accounts held)
    (text : String) :
    (heap.alloc text).2.Accounts held ∧ heap.Keeps (heap.alloc text).2 ∧
      (heap.alloc text).2.text? (heap.alloc text).1 = some text := by
  cases hget : heap.interned.get? text with
  | some p =>
    have heq : heap.alloc text = (p, heap) := by simp only [alloc, hget]
    rw [heq]
    exact ⟨h, .refl heap, (h.shared text p).1 hget⟩
  | none =>
    have hshared := shared_alloc h.shared text
    have hread := text?_alloc h.shared text
    have hfresh := cell?_alloc_fst hget
    have hcell := cell?_alloc hget
    generalize heap.alloc text = result at hshared hread hfresh hcell ⊢
    obtain ⟨p, after⟩ := result
    simp only at hshared hread hfresh hcell ⊢
    have hkeeps : heap.Keeps after := by
      intro q other hq
      rw [text?, hcell, if_neg]
      · exact hq
      · rintro rfl
        rw [text?, hfresh] at hq
        cases hq
    refine ⟨⟨hshared, ?_, ?_⟩, hkeeps, hread⟩
    · intro q cell hq
      rw [hcell] at hq
      by_cases hqp : q = p
      · rw [if_pos hqp] at hq
        cases hq
        rw [hqp, h.holders_eq_zero hfresh]
      · rw [if_neg hqp] at hq
        exact h.refs q cell hq
    · exact fun holder hmem => hkeeps.live (h.live holder hmem)

/-- Writing the right count gives a right account: `held'` differs from `held`
in holders of `p` only. -/
theorem Accounts.setCell {heap : Heap} {held held' : List (Variable Pointer)}
    (h : heap.Accounts held) {p : Pointer} {cell : Cell} (hcell : heap.cell? p = some cell)
    {refs : Nat} (hrefs : refs = 1 + p.holders held')
    (hothers : ∀ q, q ≠ p → q.holders held' = q.holders held)
    (hlive : ∀ holder ∈ held', holder.value.Live heap) :
    (heap.setCell p (some { cell with refs := refs })).Accounts held' where
  shared := shared_setCell h.shared hcell refs
  refs q cell' hcell' := by
    rw [cell?_setCell hcell] at hcell'
    by_cases hqp : q = p
    · rw [if_pos hqp] at hcell'
      cases hcell'
      rw [hqp]
      exact hrefs
    · rw [if_neg hqp] at hcell'
      rw [hothers q hqp]
      exact h.refs q cell' hcell'
  live holder hmem := (keeps_setCell hcell refs).live (hlive holder hmem)

theorem holders_cons_self {p : Pointer} {holder : Variable Pointer}
    (h : holder.value = .pointer p) (held : List (Variable Pointer)) :
    p.holders (holder :: held) = p.holders held + 1 := by
  rw [Pointer.holders, List.countP_cons_of_pos (by simpa using h)]
  rfl

theorem holders_cons_of_ne {p : Pointer} {holder : Variable Pointer}
    (h : holder.value ≠ .pointer p) (held : List (Variable Pointer)) :
    p.holders (holder :: held) = p.holders held := by
  rw [Pointer.holders, List.countP_cons_of_neg (by simpa using h)]
  rfl

/-- One more variable holds a pointer.  The only thing that can be wrong is
that the count is at its greatest. -/
theorem accounts_addRef {heap : Heap} {held : List (Variable Pointer)} (h : heap.Accounts held)
    {holder : Variable Pointer} {p : Pointer} (hvalue : holder.value = .pointer p)
    (hp : heap.isAlive p = true) :
    (∃ after, heap.addRef p 1 = .ok after ∧ heap.Keeps after ∧
        after.Accounts (holder :: held)) ∨
      heap.addRef p 1 = .error (.overflow p) ∧ maxRefs < 2 + p.holders held := by
  obtain ⟨cell, hcell⟩ := isAlive_iff.1 hp
  have hrefs := h.refs p cell hcell
  by_cases hmax : cell.refs + 1 ≤ maxRefs
  · refine .inl ⟨_, by simp only [addRef, hcell, if_pos hmax]; rfl, keeps_setCell hcell _, ?_⟩
    refine h.setCell hcell ?_ ?_ ?_
    · rw [holders_cons_self hvalue, hrefs]
      omega
    · intro q hqp
      exact holders_cons_of_ne (by rw [hvalue]; simpa using Ne.symm hqp) held
    · intro other hmem
      rcases List.mem_cons.1 hmem with rfl | hmem
      · intro q hq
        rw [hvalue] at hq
        cases hq
        exact hp
      · exact h.live other hmem
  · refine .inr ⟨?_, by omega⟩
    simp only [addRef, hcell, if_neg hmax]
    rfl

/-- A variable holds a pointer no longer.  The reference of the heap is left,
so the string stays. -/
theorem accounts_release {heap : Heap} {held : List (Variable Pointer)}
    {holder : Variable Pointer} {p : Pointer} (hvalue : holder.value = .pointer p)
    (h : heap.Accounts (holder :: held)) :
    ∃ after, heap.release p 1 = .ok (true, after) ∧ heap.Keeps after ∧ after.Accounts held := by
  have hp := h.live holder List.mem_cons_self p hvalue
  obtain ⟨cell, hcell⟩ := isAlive_iff.1 hp
  have hrefs := h.refs p cell hcell
  rw [holders_cons_self hvalue] at hrefs
  have hlt : ¬ cell.refs < 1 := by omega
  have hne : ¬ cell.refs = 1 := by omega
  refine ⟨_, by simp only [release, hcell, if_neg hlt, if_neg hne]; rfl, keeps_setCell hcell _, ?_⟩
  refine h.setCell hcell (by omega) ?_ ?_
  · intro q hqp
    rw [holders_cons_of_ne (by rw [hvalue]; simpa using Ne.symm hqp) held]
  · exact fun other hmem => h.live other (List.mem_cons_of_mem _ hmem)

end Heap

end UnitScript
