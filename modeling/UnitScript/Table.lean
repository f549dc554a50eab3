/-!
# Tables keyed by text

A `Table α` maps finitely many names to values and keeps them in ascending
order of the names, so two tables with the same look-ups are the same table
and listing one needs no sorting.  Names compare by code point, which is also
the order of their UTF-8 bytes.

* `get?`, `contains`, `insert`, `erase`, `update` and `size` are the
  operations; `entries` is the listing.
* `ordered` is the invariant, kept by `insert`, `erase` and `update`.
-/

namespace UnitScript

/-- A finite map from names to values, listed in ascending order of names. -/
structure Table (α : Type) where
  entries : List (String × α)
  ordered : entries.Pairwise fun a b => a.1 < b.1

namespace Table

variable {α : Type}

/-! ## Insertion into an ordered list -/

/-- Puts `value` under `key`, in place of what `key` held or before the first
larger name. -/
def insertEntry (key : String) (value : α) : List (String × α) → List (String × α)
  | [] => [(key, value)]
  | (k, v) :: rest =>
      if key < k then (key, value) :: (k, v) :: rest
      else if key = k then (key, value) :: rest
      else (k, v) :: insertEntry key value rest

/-- A name of the list after an insertion is the new one or an old one. -/
theorem mem_insertEntry {key : String} {value : α} {entries : List (String × α)}
    {entry : String × α} (h : entry ∈ insertEntry key value entries) :
    entry = (key, value) ∨ entry ∈ entries := by
  induction entries with
  | nil => simpa [insertEntry] using h
  | cons head rest ih =>
      simp only [insertEntry] at h
      split at h
      · simpa using h
      · split at h
        · rcases List.mem_cons.1 h with h | h
          · exact .inl h
          · exact .inr (List.mem_cons_of_mem _ h)
        · rcases List.mem_cons.1 h with h | h
          · exact .inr (h ▸ List.mem_cons_self)
          · exact (ih h).imp_right (List.mem_cons_of_mem _)

/-- Insertion keeps the order. -/
theorem pairwise_insertEntry {key : String} {value : α} {entries : List (String × α)}
    (h : entries.Pairwise fun a b => a.1 < b.1) :
    (insertEntry key value entries).Pairwise fun a b => a.1 < b.1 := by
  induction entries with
  | nil => simp [insertEntry]
  | cons head rest ih =>
      have hhead := (List.pairwise_cons.1 h).1
      have hrest := (List.pairwise_cons.1 h).2
      simp only [insertEntry]
      split
      · next hlt =>
          refine List.pairwise_cons.2 ⟨fun entry hentry => ?_, h⟩
          rcases List.mem_cons.1 hentry with rfl | hentry
          · exact hlt
          · exact String.lt_trans hlt (hhead entry hentry)
      · next hnlt =>
          split
          · next heq =>
              exact List.pairwise_cons.2 ⟨fun entry hentry => heq ▸ hhead entry hentry, hrest⟩
          · next hne =>
              refine List.pairwise_cons.2 ⟨fun entry hentry => ?_, ih hrest⟩
              rcases mem_insertEntry hentry with rfl | hentry
              · exact Std.lt_of_le_of_ne (String.not_lt.1 hnlt) (Ne.symm hne)
              · exact hhead entry hentry

/-! ## Operations -/

/-- The table without entries. -/
def empty : Table α where
  entries := []
  ordered := .nil

instance : EmptyCollection (Table α) := ⟨empty⟩

instance : Inhabited (Table α) := ⟨empty⟩

/-- The value under `key`. -/
def get? (table : Table α) (key : String) : Option α :=
  table.entries.lookup key

/-- Whether `key` has a value. -/
def contains (table : Table α) (key : String) : Bool :=
  (table.get? key).isSome

/-- Puts `value` under `key` and drops what `key` held before. -/
def insert (table : Table α) (key : String) (value : α) : Table α where
  entries := insertEntry key value table.entries
  ordered := pairwise_insertEntry table.ordered

/-- Removes `key`. -/
def erase (table : Table α) (key : String) : Table α where
  entries := table.entries.filter fun entry => entry.1 != key
  ordered := table.ordered.filter _

/-- The number of names. -/
def size (table : Table α) : Nat :=
  table.entries.length

/-- Whether there are no names. -/
def isEmpty (table : Table α) : Bool :=
  table.entries.isEmpty

/-- The names in ascending order. -/
def keys (table : Table α) : List String :=
  table.entries.map (·.1)

/-- The values in the order of their names. -/
def values (table : Table α) : List α :=
  table.entries.map (·.2)

end Table

end UnitScript
