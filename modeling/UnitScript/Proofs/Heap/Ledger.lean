import Mathlib.Data.Finmap
import Mathlib.Data.Finset.Max
import UnitScript.Proofs.Heap

/-!
# The heap answers like a ledger

A heap keeps the same facts three times: in its slots, in the table of shared
texts and in the number of cells in use.  A `Ledger` keeps them once, as a
finite map from ids to cells and the id that comes next.  Whatever is asked of a
heap, it gives the answers that the ledger gives.

* `Ledger` and its operations are the model; `Request` is what can be asked of
  either, `Heap.answer` and `Ledger.answer` what they do and reply.
* Cells in use.  `mem_cellsInUse` and `length_cellsInUse` read the listing off
  the slots.
* `Consistent` says that the three structures of a heap agree.  Each operation
  keeps it: `consistent_alloc`, `Consistent.setCell`, `Consistent.remove`.
* `Refines` ties a heap to a ledger; `answer_refines` is the step, and
  `answerAll_refines` the run.
* `dead_answerAll` says that an id that was issued and freed stays dead.
* `answers_like_ledger` is the whole statement, for every list of requests.
-/

namespace UnitScript

/-! ## Requests and the ledger -/

namespace Heap

/-- What can be asked of a heap. -/
inductive Request where
  | alloc (text : String)
  | addRef (p : Pointer) (count : Nat)
  | release (p : Pointer) (count : Nat)
  | free (p : Pointer)
  | text (p : Pointer)
  | text? (p : Pointer)
  | refs? (p : Pointer)
  | isAlive (p : Pointer)
  | clear
deriving DecidableEq

/-- What a heap replies. -/
inductive Answer where
  | pointer (p : Pointer)
  | done
  | flag (value : Bool)
  | text (text : String)
  | text? (text : Option String)
  | refs? (refs : Option Nat)
  | failed (error : Error)
deriving DecidableEq

/-- The pointer that a request is about. -/
def Request.pointer? : Request → Option Pointer
  | .alloc _ => none
  | .addRef p _ => some p
  | .release p _ => some p
  | .free p => some p
  | .text p => some p
  | .text? p => some p
  | .refs? p => some p
  | .isAlive p => some p
  | .clear => none

/-- Answers requests one after the other. -/
def Request.answerAll {σ : Type} (answer : Request → σ → Answer × σ) :
    List Request → σ → List Answer × σ
  | [], state => ([], state)
  | request :: later, state =>
      let (reply, state) := answer request state
      let (replies, state) := answerAll answer later state
      (reply :: replies, state)

/-- What a heap replies to a request, and the heap after it. -/
def answer (request : Request) (heap : Heap) : Answer × Heap :=
  match request with
  | .alloc text => ((.pointer (heap.alloc text).1), (heap.alloc text).2)
  | .addRef p count =>
      match heap.addRef p count with
      | .ok after => (.done, after)
      | .error error => (.failed error, heap)
  | .release p count =>
      match heap.release p count with
      | .ok (found, after) => (.flag found, after)
      | .error error => (.failed error, heap)
  | .free p => (.flag (heap.free p).1, (heap.free p).2)
  | .text p =>
      match heap.text p with
      | .ok text => (.text text, heap)
      | .error error => (.failed error, heap)
  | .text? p => (.text? (heap.text? p), heap)
  | .refs? p => (.refs? (heap.refs? p), heap)
  | .isAlive p => (.flag (heap.isAlive p), heap)
  | .clear => (.done, heap.clear)

end Heap

/-- The cells in use by their ids, and the id of the next new cell. -/
structure Ledger where
  cells : Finmap fun _ : Nat => Cell
  next : Nat

namespace Ledger

/-- The ledger without cells.  Ids start at one. -/
def empty : Ledger := ⟨∅, 1⟩

/-- The cell that a pointer refers to. -/
def cell? (ledger : Ledger) (p : Pointer) : Option Cell := ledger.cells.lookup p.id

/-- Writes the cell that a pointer refers to. -/
def write (ledger : Ledger) (p : Pointer) (cell : Cell) : Ledger :=
  { ledger with cells := ledger.cells.insert p.id cell }

/-- Removes the cell that a pointer refers to. -/
def remove (ledger : Ledger) (p : Pointer) : Ledger :=
  { ledger with cells := ledger.cells.erase p.id }

/-- The ids of the cells that hold `text`. -/
def holders (ledger : Ledger) (text : String) : Finset Nat :=
  ledger.cells.keys.filter fun id => (ledger.cells.lookup id).map (·.text) = some text

/-- What a ledger replies to a request, and the ledger after it.  A text that a
cell holds has the id of that cell.  Any other gets the next id and one
reference. -/
def answer (request : Heap.Request) (ledger : Ledger) : Heap.Answer × Ledger :=
  match request with
  | .alloc text =>
      if h : (ledger.holders text).Nonempty then (.pointer ⟨(ledger.holders text).min' h⟩, ledger)
      else
        (.pointer ⟨ledger.next⟩,
          { ledger.write ⟨ledger.next⟩ ⟨text, 1⟩ with next := ledger.next + 1 })
  | .addRef p count =>
      if count = 0 then (.failed .noReferences, ledger)
      else
        match ledger.cell? p with
        | none => (.failed (.invalidPointer p), ledger)
        | some cell =>
            if cell.refs + count ≤ Heap.maxRefs then
              (.done, ledger.write p { cell with refs := cell.refs + count })
            else
              (.failed (.overflow p), ledger)
  | .release p count =>
      if count = 0 then (.failed .noReferences, ledger)
      else
        match ledger.cell? p with
        | none => (.flag false, ledger)
        | some cell =>
            if cell.refs < count then (.failed (.underflow p cell.refs count), ledger)
            else if cell.refs = count then (.flag true, ledger.remove p)
            else (.flag true, ledger.write p { cell with refs := cell.refs - count })
  | .free p => (.flag (ledger.cell? p).isSome, ledger.remove p)
  | .text p =>
      match ledger.cell? p with
      | none => (.failed (.invalidPointer p), ledger)
      | some cell => (.text cell.text, ledger)
  | .text? p => (.text? ((ledger.cell? p).map (·.text)), ledger)
  | .refs? p => (.refs? ((ledger.cell? p).map (·.refs)), ledger)
  | .isAlive p => (.flag (ledger.cell? p).isSome, ledger)
  | .clear => (.done, empty)

theorem cell?_write (ledger : Ledger) (p q : Pointer) (cell : Cell) :
    (ledger.write p cell).cell? q = if q = p then some cell else ledger.cell? q := by
  unfold cell? write
  by_cases h : q = p
  · rw [if_pos h, h, Finmap.lookup_insert]
  · have hid : q.id ≠ p.id := fun heq => h (congrArg Pointer.mk heq)
    rw [if_neg h, Finmap.lookup_insert_of_ne _ hid]

theorem cell?_remove (ledger : Ledger) (p q : Pointer) :
    (ledger.remove p).cell? q = if q = p then none else ledger.cell? q := by
  unfold cell? remove
  by_cases h : q = p
  · rw [if_pos h, h, Finmap.lookup_erase]
  · have hid : q.id ≠ p.id := fun heq => h (congrArg Pointer.mk heq)
    rw [if_neg h, Finmap.lookup_erase_ne hid]

theorem mem_holders {ledger : Ledger} {text : String} {id : Nat} :
    id ∈ ledger.holders text ↔ ∃ cell, ledger.cell? ⟨id⟩ = some cell ∧ cell.text = text := by
  unfold holders cell?
  rw [Finset.mem_filter, Finmap.mem_keys, Option.map_eq_some_iff]
  refine ⟨And.right, fun h => ⟨?_, h⟩⟩
  obtain ⟨cell, hcell, _⟩ := h
  exact Finmap.mem_of_lookup_eq_some hcell

end Ledger

namespace Heap

variable {heap : Heap} {p : Pointer} {cell : Cell}

/-! ## Cells in use -/

/-- The id of a cell is one more than the index of its slot. -/
theorem cell?_succ_eq_some_iff {index : Nat} :
    heap.cell? ⟨index + 1⟩ = some cell ↔ heap.cells[index]? = some (some cell) := by
  simp [cell?, Option.join_eq_some_iff]

/-- The listing holds the cells that pointers refer to. -/
theorem mem_cellsInUse {id : Nat} :
    (id, cell) ∈ heap.cellsInUse ↔ heap.cell? ⟨id⟩ = some cell := by
  simp only [cellsInUse, List.mem_filterMap, Prod.exists, List.mem_zipIdx_iff_getElem?,
    Option.map_eq_some_iff, Prod.mk.injEq]
  constructor
  · rintro ⟨content, index, hslot, held, rfl, rfl, rfl⟩
    exact cell?_succ_eq_some_iff.2 (by simpa using hslot)
  · intro hcell
    obtain _ | index := id
    · cases hcell
    · refine ⟨some cell, index, ?_, cell, rfl, rfl, rfl⟩
      simpa using cell?_succ_eq_some_iff.1 hcell

theorem nodup_cellsInUse (heap : Heap) : heap.cellsInUse.Nodup := by
  have hslots : heap.cells.toList.zipIdx.Nodup := by
    apply List.Nodup.of_map Prod.snd
    rw [List.zipIdx_map_snd]
    exact List.nodup_range'
  refine List.Nodup.filterMap ?_ hslots
  rintro ⟨content, index⟩ ⟨content', index'⟩ entry hentry hentry'
  obtain ⟨held, rfl, rfl⟩ := Option.map_eq_some_iff.1 hentry
  obtain ⟨held', rfl, heq⟩ := Option.map_eq_some_iff.1 hentry'
  simp only [Prod.mk.injEq, Nat.add_right_cancel_iff] at heq
  rw [heq.1, heq.2]

/-- As many cells are listed as slots are filled. -/
theorem length_cellsInUse (heap : Heap) :
    heap.cellsInUse.length = heap.cells.toList.countP Option.isSome := by
  rw [cellsInUse, List.length_filterMap_eq_countP]
  conv => rhs; rw [← List.zipIdx_map_fst 0 heap.cells.toList, List.countP_map]
  congr
  funext entry
  simp

/-- A slot that is written has been filled before. -/
theorem length_cellsInUse_setCell (hcell : heap.cell? p = some cell) (content : Option Cell) :
    (heap.setCell p content).cellsInUse.length =
      heap.cellsInUse.length - 1 + if content.isSome then 1 else 0 := by
  obtain ⟨_ | index⟩ := p
  · cases hcell
  obtain ⟨hindex, hslot⟩ := Array.getElem?_eq_some_iff.1 (cell?_succ_eq_some_iff.1 hcell)
  rw [length_cellsInUse, length_cellsInUse, setCell, Nat.add_sub_cancel,
    Array.toList_setIfInBounds, List.countP_set (by simpa using hindex), Array.getElem_toList, hslot]
  rfl

/-- A cell that a pointer refers to is listed. -/
theorem length_cellsInUse_pos (hcell : heap.cell? p = some cell) :
    0 < heap.cellsInUse.length :=
  List.length_pos_of_mem (mem_cellsInUse.2 hcell)

/-! ## The three structures agree -/

/-- The table of shared texts lists the cells, no count is zero, and the cells
in use are counted. -/
structure Consistent (heap : Heap) : Prop where
  shared : heap.Shared
  counted : ∀ p cell, heap.cell? p = some cell → 1 ≤ cell.refs
  live : heap.live = heap.cellsInUse.length

theorem consistent_empty : empty.Consistent where
  shared := accounts_empty.shared
  counted p cell hcell := by
    obtain ⟨_ | index⟩ := p <;> simp [cell?, empty] at hcell
  live := rfl

/-- There are as many shared texts as cells, because every cell has a text of
its own. -/
theorem Consistent.size_interned (h : heap.Consistent) :
    heap.interned.size = heap.cellsInUse.length := by
  have htexts : (heap.cellsInUse.map (·.2.text)).Nodup := by
    refine heap.nodup_cellsInUse.map_on ?_
    rintro ⟨id, held⟩ hmem ⟨id', held'⟩ hmem' htext
    have hcell := mem_cellsInUse.1 hmem
    have hcell' := mem_cellsInUse.1 hmem'
    obtain rfl : id = id' := congrArg Pointer.id (h.shared.text?_inj
      (text?_eq_some_iff.2 ⟨held, hcell, htext⟩) (text?_eq_some_iff.2 ⟨held', hcell', rfl⟩))
    rw [hcell] at hcell'
    rw [Option.some.inj hcell']
  have hsame : heap.interned.keys.Perm (heap.cellsInUse.map (·.2.text)) := by
    refine (List.perm_ext_iff_of_nodup heap.interned.nodup_keys htexts).2 fun text => ?_
    rw [Table.mem_keys_iff, List.mem_map]
    constructor
    · rintro ⟨p, hget⟩
      obtain ⟨held, hcell, htext⟩ := text?_eq_some_iff.1 ((h.shared text p).1 hget)
      exact ⟨(p.id, held), mem_cellsInUse.2 hcell, htext⟩
    · rintro ⟨⟨id, held⟩, hmem, htext⟩
      exact ⟨⟨id⟩, (h.shared text _).2 (text?_eq_some_iff.2 ⟨held, mem_cellsInUse.1 hmem, htext⟩)⟩
  have hlength := hsame.length_eq
  rwa [Table.keys, List.length_map, List.length_map] at hlength

theorem consistent_alloc (h : heap.Consistent) (text : String) :
    (heap.alloc text).2.Consistent := by
  cases hget : heap.interned.get? text with
  | some p =>
    have heq : heap.alloc text = (p, heap) := by simp only [alloc, hget]
    rw [heq]
    exact h
  | none =>
    refine ⟨shared_alloc h.shared text, ?_, ?_⟩
    · intro q held hq
      rw [cell?_alloc hget] at hq
      split at hq
      · cases hq
        exact Nat.le_refl 1
      · exact h.counted q held hq
    · have hlive := h.live
      rw [length_cellsInUse] at hlive ⊢
      simp [alloc, hget, hlive]

/-- A count that is not zero can be written. -/
theorem Consistent.setCell (h : heap.Consistent) (hcell : heap.cell? p = some cell) {refs : Nat}
    (hrefs : 1 ≤ refs) : (heap.setCell p (some { cell with refs := refs })).Consistent where
  shared := shared_setCell h.shared hcell refs
  counted q held hq := by
    rw [cell?_setCell hcell] at hq
    split at hq
    · cases hq
      exact hrefs
    · exact h.counted q held hq
  live := by
    have hpos := length_cellsInUse_pos hcell
    have hlive : heap.live = heap.cellsInUse.length := h.live
    rw [length_cellsInUse_setCell hcell]
    change heap.live = _
    simp only [Option.isSome_some, if_true]
    omega

theorem cell?_remove (hcell : heap.cell? p = some cell) (q : Pointer) :
    (heap.remove p cell).cell? q = if q = p then none else heap.cell? q :=
  cell?_setCell hcell none q

/-- A cell that is removed leaves no trace: its text is shared no longer. -/
theorem Consistent.remove (h : heap.Consistent) (hcell : heap.cell? p = some cell) :
    (heap.remove p cell).Consistent where
  shared := by
    have hheld : heap.text? p = some cell.text := text?_eq_some_iff.2 ⟨cell, hcell, rfl⟩
    have hinterned : (heap.remove p cell).interned = heap.interned.erase cell.text := by
      simp only [Heap.remove, if_pos ((h.shared cell.text p).2 hheld)]
    intro text q
    have htext : (heap.remove p cell).text? q = if q = p then none else heap.text? q := by
      rw [text?, cell?_remove hcell]
      split <;> rfl
    rw [hinterned, htext, Table.get?_erase]
    by_cases hq : q = p
    · subst hq
      have hother : text ≠ cell.text → ¬ heap.interned.get? text = some q := by
        intro hne hget
        rw [h.shared, hheld] at hget
        exact hne (Option.some.inj hget).symm
      by_cases ht : text = cell.text <;> simp [ht, hother]
    · by_cases ht : text = cell.text
      · have hother : ¬ heap.text? q = some text :=
          fun htext => hq (h.shared.text?_inj htext (ht ▸ hheld))
        rw [if_pos ht, if_neg hq]
        exact iff_of_false (Option.some_ne_none q).symm hother
      · rw [if_neg ht, if_neg hq]
        exact h.shared text q
  counted q held hq := by
    rw [cell?_remove hcell] at hq
    split at hq
    · cases hq
    · exact h.counted q held hq
  live := by
    have hlength := length_cellsInUse_setCell hcell none
    have hlive : heap.live = heap.cellsInUse.length := h.live
    simp only [Option.isSome_none, Bool.false_eq_true, if_false, Nat.add_zero] at hlength
    change heap.live - 1 = (heap.setCell p none).cellsInUse.length
    rw [hlength, hlive]

/-! ## A heap and its ledger -/

/-- The heap is consistent, and the ledger has its cells and its next id. -/
structure Refines (heap : Heap) (ledger : Ledger) : Prop where
  consistent : heap.Consistent
  cells : ∀ p, heap.cell? p = ledger.cell? p
  next : ledger.next = heap.cells.size + 1

variable {ledger : Ledger}

theorem refines_empty : empty.Refines .empty where
  consistent := consistent_empty
  cells p := by
    rw [Ledger.cell?, Ledger.empty, Finmap.lookup_empty]
    obtain ⟨_ | index⟩ := p <;> simp [cell?, empty]
  next := rfl

/-- Writing a count that is not zero is writing it in the ledger. -/
theorem Refines.write (h : heap.Refines ledger) (hcell : heap.cell? p = some cell) {refs : Nat}
    (hrefs : 1 ≤ refs) :
    (heap.setCell p (some { cell with refs := refs })).Refines
      (ledger.write p { cell with refs := refs }) where
  consistent := h.consistent.setCell hcell hrefs
  cells q := by rw [cell?_setCell hcell, Ledger.cell?_write, h.cells]
  next := by
    rw [setCell, Array.size_setIfInBounds]
    exact h.next

theorem Refines.remove (h : heap.Refines ledger) (hcell : heap.cell? p = some cell) :
    (heap.remove p cell).Refines (ledger.remove p) where
  consistent := h.consistent.remove hcell
  cells q := by rw [cell?_remove hcell, Ledger.cell?_remove, h.cells]
  next := by
    rw [Heap.remove, setCell, Array.size_setIfInBounds]
    exact h.next

/-- A reply and a heap are what a reply and a ledger say. -/
def Agrees (fromHeap : Answer × Heap) (fromLedger : Answer × Ledger) : Prop :=
  fromHeap.1 = fromLedger.1 ∧ fromHeap.2.Refines fromLedger.2

/-- A text gets the pointer that the ledger gives it. -/
theorem answer_alloc_refines (h : heap.Refines ledger) (text : String) :
    Agrees (heap.answer (.alloc text)) (ledger.answer (.alloc text)) := by
  have hconsistent := consistent_alloc h.consistent text
  simp only [answer, Ledger.answer]
  cases hget : heap.interned.get? text with
  | some p =>
    have heq : heap.alloc text = (p, heap) := by simp only [alloc, hget]
    have hheld : heap.text? p = some text := (h.consistent.shared text p).1 hget
    obtain ⟨cell, hcell, htext⟩ := text?_eq_some_iff.1 hheld
    have hholder : p.id ∈ ledger.holders text :=
      Ledger.mem_holders.2 ⟨cell, (h.cells p).symm.trans hcell, htext⟩
    have hnonempty : (ledger.holders text).Nonempty := ⟨p.id, hholder⟩
    -- no two cells hold the same text, so the least id that holds it is the only one
    have hleast : (⟨(ledger.holders text).min' hnonempty⟩ : Pointer) = p := by
      obtain ⟨other, hother, hsame⟩ :=
        Ledger.mem_holders.1 ((ledger.holders text).min'_mem hnonempty)
      exact h.consistent.shared.text?_inj
        (text?_eq_some_iff.2 ⟨other, (h.cells _).trans hother, hsame⟩) hheld
    rw [dif_pos hnonempty, heq]
    exact ⟨congrArg Answer.pointer hleast.symm, h⟩
  | none =>
    have hnobody : ¬ (ledger.holders text).Nonempty := by
      rintro ⟨id, hid⟩
      obtain ⟨cell, hcell, htext⟩ := Ledger.mem_holders.1 hid
      have hshared := (h.consistent.shared text ⟨id⟩).2
        (text?_eq_some_iff.2 ⟨cell, (h.cells _).trans hcell, htext⟩)
      rw [hget] at hshared
      cases hshared
    have hpointer : (heap.alloc text).1 = ⟨ledger.next⟩ := by simp only [alloc, hget, h.next]
    rw [dif_neg hnobody]
    refine ⟨congrArg Answer.pointer hpointer, hconsistent, ?_, ?_⟩
    · intro q
      rw [cell?_alloc hget, hpointer, h.cells]
      exact (Ledger.cell?_write ledger _ q _).symm
    · simp only [alloc, hget, Array.size_push, h.next]

theorem answer_addRef_refines (h : heap.Refines ledger) (p : Pointer) (count : Nat) :
    Agrees (heap.answer (.addRef p count)) (ledger.answer (.addRef p count)) := by
  simp only [answer, Ledger.answer, addRef, ← h.cells]
  by_cases hcount : count = 0
  · simp only [if_pos hcount]
    exact ⟨rfl, h⟩
  · simp only [if_neg hcount]
    cases hcell : heap.cell? p with
    | none => exact ⟨rfl, h⟩
    | some cell =>
      by_cases hmax : cell.refs + count ≤ maxRefs
      · simp only [if_pos hmax]
        exact ⟨rfl, h.write hcell (by omega)⟩
      · simp only [if_neg hmax]
        exact ⟨rfl, h⟩

theorem answer_release_refines (h : heap.Refines ledger) (p : Pointer) (count : Nat) :
    Agrees (heap.answer (.release p count)) (ledger.answer (.release p count)) := by
  simp only [answer, Ledger.answer, release, ← h.cells]
  by_cases hcount : count = 0
  · simp only [if_pos hcount]
    exact ⟨rfl, h⟩
  · simp only [if_neg hcount]
    cases hcell : heap.cell? p with
    | none => exact ⟨rfl, h⟩
    | some cell =>
      by_cases hfew : cell.refs < count
      · simp only [if_pos hfew]
        exact ⟨rfl, h⟩
      · by_cases hlast : cell.refs = count
        · simp only [if_neg hfew, if_pos hlast]
          exact ⟨rfl, h.remove hcell⟩
        · simp only [if_neg hfew, if_neg hlast]
          exact ⟨rfl, h.write hcell (by omega)⟩

theorem answer_free_refines (h : heap.Refines ledger) (p : Pointer) :
    Agrees (heap.answer (.free p)) (ledger.answer (.free p)) := by
  simp only [answer, Ledger.answer, free, ← h.cells]
  cases hcell : heap.cell? p with
  | none =>
    -- there is nothing to remove from the ledger either
    refine ⟨rfl, h.consistent, fun q => ?_, h.next⟩
    rw [Ledger.cell?_remove, ← h.cells]
    by_cases hq : q = p
    · rw [if_pos hq, hq]
      exact hcell
    · rw [if_neg hq]
  | some cell => exact ⟨rfl, h.remove hcell⟩

/-- A heap replies to every request what its ledger replies, and remains the
heap of its ledger. -/
theorem answer_refines (h : heap.Refines ledger) (request : Request) :
    Agrees (heap.answer request) (ledger.answer request) := by
  cases request with
  | alloc text => exact answer_alloc_refines h text
  | addRef p count => exact answer_addRef_refines h p count
  | release p count => exact answer_release_refines h p count
  | free p => exact answer_free_refines h p
  | text p =>
    simp only [answer, Ledger.answer, text, text?, ← h.cells]
    cases heap.cell? p <;> exact ⟨rfl, h⟩
  | text? p => exact ⟨by simp only [answer, Ledger.answer, text?, h.cells], h⟩
  | refs? p => exact ⟨by simp only [answer, Ledger.answer, refs?, h.cells], h⟩
  | isAlive p => exact ⟨by simp only [answer, Ledger.answer, isAlive, h.cells], h⟩
  | clear => exact ⟨rfl, refines_empty⟩

/-- A heap gives all the answers of its ledger. -/
theorem answerAll_refines (h : heap.Refines ledger) (requests : List Request) :
    (Request.answerAll Heap.answer requests heap).1 =
        (Request.answerAll Ledger.answer requests ledger).1 ∧
      (Request.answerAll Heap.answer requests heap).2.Refines
        (Request.answerAll Ledger.answer requests ledger).2 := by
  induction requests generalizing heap ledger with
  | nil => exact ⟨rfl, h⟩
  | cons request later ih =>
    obtain ⟨hreply, hafter⟩ := answer_refines h request
    obtain ⟨hreplies, hlast⟩ := ih hafter
    simp only [Request.answerAll]
    exact ⟨by rw [hreply, hreplies], hlast⟩

/-- The cells in use are those of the ledger. -/
theorem Refines.live_eq_card (h : heap.Refines ledger) : heap.live = ledger.cells.keys.card := by
  have hids : (heap.cellsInUse.map (·.1)).Nodup := by
    refine heap.nodup_cellsInUse.map_on ?_
    rintro ⟨id, held⟩ hmem ⟨id', held'⟩ hmem' rfl
    have hcell := mem_cellsInUse.1 hmem
    rw [mem_cellsInUse.1 hmem'] at hcell
    rw [Option.some.inj hcell]
  have hsame : (heap.cellsInUse.map (·.1)).toFinset = ledger.cells.keys := by
    ext id
    rw [List.mem_toFinset, List.mem_map, Finmap.mem_keys, Finmap.mem_iff]
    constructor
    · rintro ⟨⟨id, held⟩, hmem, rfl⟩
      exact ⟨held, (h.cells ⟨id⟩).symm.trans (mem_cellsInUse.1 hmem)⟩
    · rintro ⟨held, hlookup⟩
      exact ⟨(id, held), mem_cellsInUse.2 ((h.cells ⟨id⟩).trans hlookup), rfl⟩
  rw [h.consistent.live, ← hsame, List.toFinset_card_of_nodup hids, List.length_map]

/-! ## What a request leaves alone -/

/-- A pointer refers to nothing when it is null, or its id was not issued yet, or
the cell it referred to is gone. -/
theorem Refines.dead (h : heap.Refines ledger)
    (hp : p.isNull = true ∨ ledger.next ≤ p.id ∨ heap.cell? p = none) : heap.cell? p = none := by
  obtain ⟨_ | index⟩ := p
  · rfl
  rcases hp with hnull | hunknown | hdead
  · simp [Pointer.isNull] at hnull
  · have hsize : heap.cells.size ≤ index := by
      rw [h.next] at hunknown
      exact Nat.le_of_succ_le_succ hunknown
    simp [cell?, Array.getElem?_eq_none hsize]
  · exact hdead

/-- A request that fails leaves the heap as it was. -/
theorem answer_of_failed {request : Request} {error : Error}
    (h : (heap.answer request).1 = .failed error) : (heap.answer request).2 = heap := by
  cases request with
  | addRef p count =>
    simp only [answer] at h ⊢
    cases hresult : heap.addRef p count with
    | ok after =>
      rw [hresult] at h
      cases h
    | error _ => rfl
  | release p count =>
    simp only [answer] at h ⊢
    cases hresult : heap.release p count with
    | ok result =>
      rw [hresult] at h
      cases h
    | error _ => rfl
  | text p =>
    simp only [answer]
    cases heap.text p <;> rfl
  | alloc | free | clear => cases h
  | text? | refs? | isAlive => rfl

/-- A request about a pointer that refers to nothing leaves the heap as it
was. -/
theorem answer_of_dead {request : Request} (hpointer : request.pointer? = some p)
    (hdead : heap.cell? p = none) : (heap.answer request).2 = heap := by
  cases request with
  | alloc | clear => cases hpointer
  | addRef q count =>
    cases hpointer
    simp only [answer, addRef, hdead]
    by_cases hcount : count = 0
    · simp only [if_pos hcount]
    · simp only [if_neg hcount]
  | release q count =>
    cases hpointer
    simp only [answer, release, hdead]
    by_cases hcount : count = 0
    · simp only [if_pos hcount]
    · simp only [if_neg hcount]
  | free q =>
    cases hpointer
    simp only [answer, free, hdead]
  | text q =>
    simp only [answer]
    cases heap.text q <;> rfl
  | text? | refs? | isAlive => rfl

/-- An id that was issued and refers to nothing refers to nothing afterwards
either, and ids are not taken back. -/
theorem dead_answer {request : Request} (hclear : request ≠ .clear)
    (hissued : p.id < ledger.next) (hdead : ledger.cell? p = none) :
    p.id < (ledger.answer request).2.next ∧ (ledger.answer request).2.cell? p = none := by
  have hother {q : Pointer} {held : Cell} (hq : ledger.cell? q = some held) : p ≠ q := by
    rintro rfl
    rw [hdead] at hq
    cases hq
  cases request with
  | alloc text =>
    simp only [Ledger.answer]
    split
    · exact ⟨hissued, hdead⟩
    · have hnew : p ≠ ⟨ledger.next⟩ := fun heq => absurd (congrArg Pointer.id heq) (by simp; omega)
      refine ⟨Nat.lt_succ_of_lt hissued, ?_⟩
      exact (Ledger.cell?_write ledger _ p _).trans ((if_neg hnew).trans hdead)
  | addRef q count =>
    simp only [Ledger.answer]
    split
    · exact ⟨hissued, hdead⟩
    · split
      · exact ⟨hissued, hdead⟩
      · next held hq =>
          split
          · exact ⟨hissued, (Ledger.cell?_write ..).trans ((if_neg (hother hq)).trans hdead)⟩
          · exact ⟨hissued, hdead⟩
  | release q count =>
    simp only [Ledger.answer]
    split
    · exact ⟨hissued, hdead⟩
    · split
      · exact ⟨hissued, hdead⟩
      · next held hq =>
          split
          · exact ⟨hissued, hdead⟩
          · split
            · exact ⟨hissued, (Ledger.cell?_remove ..).trans ((if_neg (hother hq)).trans hdead)⟩
            · exact ⟨hissued, (Ledger.cell?_write ..).trans ((if_neg (hother hq)).trans hdead)⟩
  | free q =>
    refine ⟨hissued, (Ledger.cell?_remove ledger q p).trans ?_⟩
    rw [hdead, ite_self]
  | text q =>
    simp only [Ledger.answer]
    cases ledger.cell? q <;> exact ⟨hissued, hdead⟩
  | text? | refs? | isAlive => exact ⟨hissued, hdead⟩
  | clear => exact absurd rfl hclear

/-- An id that was issued and refers to nothing refers to nothing until the heap
is cleared. -/
theorem dead_answerAll {later : List Request} (hclear : .clear ∉ later)
    (hissued : p.id < ledger.next) (hdead : ledger.cell? p = none) :
    (Request.answerAll Ledger.answer later ledger).2.cell? p = none := by
  induction later generalizing ledger with
  | nil => exact hdead
  | cons request rest ih =>
    obtain ⟨hfirst, hrest⟩ := not_or.1 (mt List.mem_cons.2 hclear)
    obtain ⟨hissued', hdead'⟩ := dead_answer (Ne.symm hfirst) hissued hdead
    exact ih hrest hissued' hdead'

theorem Request.answerAll_append {σ : Type} (step : Request → σ → Answer × σ)
    (first later : List Request) (state : σ) :
    (answerAll step (first ++ later) state).2 =
      (answerAll step later (answerAll step first state).2).2 := by
  induction first generalizing state with
  | nil => rfl
  | cons request rest ih => exact ih (step request state).2

/-- A heap is a ledger that is kept three times.  From a new heap on, all
requests are answered as the ledger answers them, and it has the cells of the
ledger.  Counts are at least one, no two cells hold the same text, the number of
cells in use is exact, so that taking one away from it is never too much, and
the table of shared texts lists exactly these cells.  A request that fails
changes nothing, nor does one about a pointer that is null, unknown or freed.
An id that was issued and freed refers to nothing, and is not issued again,
until the heap is cleared. -/
theorem answers_like_ledger (requests : List Request) :
    let answered := Request.answerAll Heap.answer requests empty
    let expected := Request.answerAll Ledger.answer requests .empty
    let heap := answered.2
    let ledger := expected.2
    answered.1 = expected.1 ∧
    (∀ p, heap.cell? p = ledger.cell? p) ∧
    (∀ p cell, heap.cell? p = some cell → 1 ≤ cell.refs) ∧
    (∀ p q text, heap.text? p = some text → heap.text? q = some text → p = q) ∧
    heap.live = ledger.cells.keys.card ∧
    (∀ p cell, heap.cell? p = some cell → (heap.remove p cell).live + 1 = heap.live) ∧
    (∀ text p, heap.interned.get? text = some p ↔ heap.text? p = some text) ∧
    heap.interned.size = heap.live ∧
    (∀ request error, (heap.answer request).1 = .failed error →
      (heap.answer request).2 = heap) ∧
    (∀ request p, request.pointer? = some p →
      (p.isNull = true ∨ ledger.next ≤ p.id ∨ heap.cell? p = none) →
      (heap.answer request).2 = heap) ∧
    (∀ p later, p.id < ledger.next → heap.cell? p = none → .clear ∉ later →
      let reached := (Request.answerAll Heap.answer later heap).2
      reached.cell? p = none ∧ ∀ text, (reached.alloc text).1 ≠ p) := by
  intro answered expected heap ledger
  obtain ⟨hreplies, hrefines⟩ : answered.1 = expected.1 ∧ heap.Refines ledger :=
    answerAll_refines refines_empty requests
  have hconsistent := hrefines.consistent
  refine ⟨hreplies, hrefines.cells, hconsistent.counted, ?_, hrefines.live_eq_card, ?_,
    hconsistent.shared, hconsistent.size_interned.trans hconsistent.live.symm,
    fun _ _ => answer_of_failed, fun _ _ hpointer hp => answer_of_dead hpointer (hrefines.dead hp),
    ?_⟩
  · exact fun p q text => hconsistent.shared.text?_inj
  · intro p cell hcell
    have hpos := length_cellsInUse_pos hcell
    have hlive := hconsistent.live
    change heap.live - 1 + 1 = heap.live
    omega
  · intro p later hissued hdead hclear reached
    have hdead' : ledger.cell? p = none := (hrefines.cells p).symm.trans hdead
    have hreached := (answerAll_refines hrefines later).2
    refine ⟨(hreached.cells p).trans (dead_answerAll hclear hissued hdead'), ?_⟩
    -- a pointer that is given out refers to its text
    intro text hreissued
    have hlast := (answerAll_refines hrefines (later ++ [.alloc text])).2.cells p
    have hclear' : .clear ∉ later ++ [.alloc text] := by simpa using hclear
    rw [dead_answerAll hclear' hissued hdead', Request.answerAll_append] at hlast
    have halive := text?_alloc hreached.consistent.shared text
    rw [hreissued, text?, show (reached.alloc text).2.cell? p = none from hlast] at halive
    cases halive

end Heap

end UnitScript
