import UnitScript.Heap

/-!
# Where strings are kept

A session keeps its strings in a pool and its values hold references into it.
`StringPool` is what a session asks of the pool.  The heap is one: there a
reference is a pointer, and references are counted.
-/

namespace UnitScript

/-- A store `π` of strings that are held by references `ρ`. -/
class StringPool (π : Type) (ρ : outParam Type) where
  /-- The reference of a text, which is put into the pool if need be. -/
  intern : String → π → ρ × π
  /-- The text of a reference. -/
  text : ρ → π → Except Heap.Error String
  /-- Notes that a variable holds a reference. -/
  retain : ρ → π → Except Heap.Error π
  /-- Notes that a variable holds a reference no longer. -/
  release : ρ → π → Except Heap.Error π

instance : StringPool Heap Pointer where
  intern text heap := heap.alloc text
  text p heap := heap.text p
  retain p heap := heap.addRef p 1
  release p heap := (heap.release p 1).map (·.2)

end UnitScript
