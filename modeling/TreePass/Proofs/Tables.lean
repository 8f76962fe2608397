import TreePass.Value

/-!
Tables of values. A stored value is found again under its key and leaves all other keys alone; of
many values stored in turn the last one under a key is found.
-/

set_option autoImplicit false
set_option relaxedAutoImplicit false

namespace TreePass.Table

variable (key other : String) (value : Value) (table : Table)

theorem find?_put_self : (put key value table).find? key = some value := by
  induction table with
  | nil => simp [Table.put, Table.find?]
  | cons entry rest ih =>
    obtain ⟨k, v⟩ := entry
    by_cases same : k = key
    · simp [Table.put, Table.find?, same]
    · have different : (key == k) = false := by simpa using Ne.symm same
      simpa [Table.put, Table.find?, same, List.lookup_cons, different] using ih

variable {key other} in
private theorem find?_put_of_ne (different : other ≠ key) :
    (put key value table).find? other = table.find? other := by
  have unequal : (other == key) = false := by simpa using different
  induction table with
  | nil => simp [put, find?, List.lookup_cons, unequal]
  | cons entry rest ih =>
    obtain ⟨k, v⟩ := entry
    simp only [find?] at ih
    by_cases same : k = key
    · simp [put, find?, same, List.lookup_cons, unequal]
    · simp [put, find?, same, List.lookup_cons, ih]

private theorem find?_put :
    (put key value table).find? other = if other = key then some value else table.find? other := by
  by_cases same : other = key
  · rw [if_pos same, same, find?_put_self]
  · rw [if_neg same, find?_put_of_ne value table same]

def keys (table : Table) : List String := table.map Prod.fst

@[simp]
theorem keys_cons (entry : String × Value) : keys (entry :: table) = entry.1 :: table.keys := rfl

@[simp]
theorem keys_append (table other : Table) : keys (table ++ other) = table.keys ++ other.keys :=
  List.map_append

private theorem mem_keys_put : other ∈ (put key value table).keys ↔ other =
    key ∨ other ∈ table.keys := by
  induction table with
  | nil => simp [put, keys]
  | cons entry rest ih =>
    obtain ⟨k, v⟩ := entry
    by_cases same : k = key
    · simp [put, same]
    · simp only [put, if_neg same, keys_cons, List.mem_cons, ih, or_left_comm]

variable {table} in
private theorem nodup_keys_put (distinct : table.keys.Nodup) :
    (put key value table).keys.Nodup := by
  induction table with
  | nil => simp [put, keys]
  | cons entry rest ih =>
    obtain ⟨k, v⟩ := entry
    rw [keys_cons, List.nodup_cons] at distinct
    by_cases same : k = key
    · simpa [put, same] using same ▸ distinct
    · simp only [put, if_neg same, keys_cons, List.nodup_cons, mem_keys_put, not_or]
      exact ⟨⟨same, distinct.1⟩, ih distinct.2⟩

/-- Stores entries one after the other. -/
def putAll (table entries : Table) : Table :=
  entries.foldl (fun table entry => table.put entry.1 entry.2) table

theorem find?_putAll (entries : Table) :
    (putAll table entries).find? key = (entries.reverse.lookup key).or (table.find? key) := by
  induction entries generalizing table with
  | nil => rfl
  | cons entry rest ih =>
    obtain ⟨k, v⟩ := entry
    have step : putAll table ((k, v) :: rest) = putAll (table.put k v) rest := rfl
    rw [step, ih, List.reverse_cons, List.lookup_append, Option.or_assoc, find?_put]
    by_cases same : key = k
    · simp [same]
    · have unequal : (key == k) = false := by simpa using same
      simp [same, List.lookup_cons, unequal]

variable {table} in
theorem lookup_reverse (distinct : table.keys.Nodup) :
    table.reverse.lookup key = table.find? key := by
  induction table with
  | nil => rfl
  | cons entry rest ih =>
    obtain ⟨k, v⟩ := entry
    rw [keys_cons, List.nodup_cons] at distinct
    rw [List.reverse_cons, List.lookup_append, ih distinct.2]
    by_cases same : key = k
    · have absent : Table.find? rest key = none := by
        rw [find?, List.lookup_eq_none_iff]
        exact fun entry listed => bne_iff_ne.mpr fun equal =>
          distinct.1 (List.mem_map.mpr ⟨entry, listed, equal.symm.trans same⟩)
      rw [absent, same]
      simp [find?]
    · have unequal : (key == k) = false := by simpa using same
      simp [find?, List.lookup_cons, unequal]

theorem mem_keys_putAll (entries : Table) :
    key ∈ (putAll table entries).keys ↔ key ∈ entries.keys ∨ key ∈ table.keys := by
  induction entries generalizing table with
  | nil => simp [putAll, keys]
  | cons entry rest ih =>
    have step : putAll table (entry :: rest) = putAll (table.put entry.1 entry.2) rest := rfl
    rw [step, ih, mem_keys_put, keys_cons, List.mem_cons, or_left_comm, or_assoc]

theorem nodup_keys_putAll (entries : Table) (distinct : table.keys.Nodup) :
    (putAll table entries).keys.Nodup := by
  induction entries generalizing table with
  | nil => exact distinct
  | cons entry rest ih => exact ih _ (nodup_keys_put entry.1 entry.2 distinct)

end TreePass.Table
