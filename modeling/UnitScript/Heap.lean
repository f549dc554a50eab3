import UnitScript.Table

/-!
# The string heap

Strings of a script live in a heap and are shared: equal texts have the same
`Pointer`.  Every cell counts its references.  The first one belongs to the
heap itself, so a string that was made once stays until it is released or
freed by hand.  Ids start at one, grow, and are not used again before the heap
is cleared; the pointer with id zero is null.

* `alloc` finds or makes a cell, `text?` and `text` read it.
* `addRef` and `release` change the count; a cell whose count reaches zero is
  removed, and so is its text from the table of shared texts.
* `free` removes a cell whatever its count, `clear` removes all.
-/

namespace UnitScript

/-- A reference to a cell of the heap. -/
structure Pointer where
  id : Nat
deriving DecidableEq

namespace Pointer

/-- Whether the pointer is null, and so refers to nothing. -/
def isNull (p : Pointer) : Bool := p.id == 0

/-- How a pointer is shown. -/
def text (p : Pointer) : String := "ptr#" ++ toString p.id

instance : ToString Pointer := ⟨text⟩

end Pointer

/-- A string and how many references to it there are. -/
structure Cell where
  text : String
  refs : Nat
deriving DecidableEq

/-- The cells, where the one at index `i` has the id `i + 1`; the table of
shared texts; and the number of cells in use. -/
structure Heap where
  cells : Array (Option Cell)
  interned : Table Pointer
  live : Nat

namespace Heap

/-- What can go wrong with a pointer. -/
inductive Error where
  | invalidPointer (p : Pointer)
  | underflow (p : Pointer) (held requested : Nat)
  | noReferences
  | overflow (p : Pointer)
deriving DecidableEq

namespace Error

/-- The wording of an error. -/
def message : Error → String
  | .invalidPointer p => "invalid pointer " ++ p.text
  | .underflow p held requested =>
      "refcount underflow on " ++ p.text ++ ": releasing " ++ toString requested ++ " of "
        ++ toString held
  | .noReferences => "refcount delta must be positive"
  | .overflow p => "refcount overflow on " ++ p.text

end Error

/-- The greatest count of references. -/
def maxRefs : Nat := 4294967295

/-- The heap without cells. -/
def empty : Heap := ⟨#[], ∅, 0⟩

instance : Inhabited Heap := ⟨empty⟩

/-- The cell that a pointer refers to. -/
def cell? (heap : Heap) (p : Pointer) : Option Cell :=
  match p.id with
  | 0 => none
  | index + 1 => heap.cells[index]?.join

/-- Replaces the content of the slot that a pointer refers to. -/
def setCell (heap : Heap) (p : Pointer) (content : Option Cell) : Heap :=
  { heap with cells := heap.cells.setIfInBounds (p.id - 1) content }

/-- The pointer to `text`: the one it already has, or one to a new cell with
one reference. -/
def alloc (heap : Heap) (text : String) : Pointer × Heap :=
  match heap.interned.get? text with
  | some p => (p, heap)
  | none =>
      let p : Pointer := ⟨heap.cells.size + 1⟩
      (p,
        { cells := heap.cells.push (some ⟨text, 1⟩)
          interned := heap.interned.insert text p
          live := heap.live + 1 })

/-- The text that a pointer refers to, if it refers to any. -/
def text? (heap : Heap) (p : Pointer) : Option String := (heap.cell? p).map (·.text)

/-- The text that a pointer refers to. -/
def text (heap : Heap) (p : Pointer) : Except Error String :=
  match heap.text? p with
  | some text => .ok text
  | none => .error (.invalidPointer p)

/-- The number of references to a cell. -/
def refs? (heap : Heap) (p : Pointer) : Option Nat := (heap.cell? p).map (·.refs)

/-- Whether a pointer refers to a cell. -/
def isAlive (heap : Heap) (p : Pointer) : Bool := (heap.cell? p).isSome

/-- Removes a cell, and its text from the table if it is found there under
this pointer. -/
def remove (heap : Heap) (p : Pointer) (cell : Cell) : Heap :=
  { heap.setCell p none with
    interned :=
      if heap.interned.get? cell.text = some p then heap.interned.erase cell.text
      else heap.interned
    live := heap.live - 1 }

/-- Counts `count` more references. -/
def addRef (heap : Heap) (p : Pointer) (count : Nat) : Except Error Heap :=
  if count = 0 then .error .noReferences
  else
    match heap.cell? p with
    | none => .error (.invalidPointer p)
    | some cell =>
        if cell.refs + count ≤ maxRefs then
          .ok (heap.setCell p (some { cell with refs := cell.refs + count }))
        else
          .error (.overflow p)

/-- Counts `count` references less and removes the cell when none is left.
Says whether there was a cell. -/
def release (heap : Heap) (p : Pointer) (count : Nat) : Except Error (Bool × Heap) :=
  if count = 0 then .error .noReferences
  else
    match heap.cell? p with
    | none => .ok (false, heap)
    | some cell =>
        if cell.refs < count then .error (.underflow p cell.refs count)
        else if cell.refs = count then .ok (true, heap.remove p cell)
        else .ok (true, heap.setCell p (some { cell with refs := cell.refs - count }))

/-- Removes a cell whatever its count.  Says whether there was one. -/
def free (heap : Heap) (p : Pointer) : Bool × Heap :=
  match heap.cell? p with
  | none => (false, heap)
  | some cell => (true, heap.remove p cell)

/-- Removes all cells and starts again with the first id. -/
def clear (_heap : Heap) : Heap := empty

/-- The cells in use, with their ids in ascending order. -/
def cellsInUse (heap : Heap) : List (Nat × Cell) :=
  heap.cells.toList.zipIdx.filterMap fun (content, index) =>
    content.map fun cell => (index + 1, cell)

end Heap

end UnitScript
