import TreePass.Merge
import Mathlib.Data.List.Nodup

/-!
Laws of merging. A merged result has each usable name once, and what it holds under a name is the
concatenation of what the maps hold there. Merging merged results again is the same as merging all
their parts in one go, so it does not matter how often a result is merged on its way up.
-/

set_option autoImplicit false
set_option relaxedAutoImplicit false

namespace TreePass

namespace Merged

def names (merged : Merged) : List String := merged.map Prod.fst

/-- What holds of every merged result: usable names only, and each of them once. -/
structure Sound (merged : Merged) : Prop where
  usable : "" ∉ merged.names
  once : merged.names.Nodup

@[simp] theorem names_cons (name : String) (items : List Value) (rest : Merged) :
    names ((name, items) :: rest) = name :: names rest := rfl

theorem names_add (merged : Merged) (name : String) (items : List Value) :
    (merged.add name items).names =
      if name ∈ merged.names then merged.names else merged.names ++ [name] := by
  induction merged with
  | nil => rfl
  | cons entry rest ih =>
    obtain ⟨known, old⟩ := entry
    by_cases same : known = name
    · simp [add, same]
    · have different : ¬ name = known := fun h => same h.symm
      by_cases later : name ∈ names rest
      · simp [add, same, different, ih, later]
      · simp [add, same, different, ih, later]

private theorem mem_names_add {merged : Merged} {name other : String} (items : List Value) :
    other ∈ (merged.add name items).names ↔ other ∈ merged.names ∨ other = name := by
  rw [names_add]
  split_ifs with known
  · constructor
    · exact Or.inl
    · rintro (listed | rfl)
      · exact listed
      · exact known
  · simp

theorem Sound.add {merged : Merged} (sound : merged.Sound) {name : String} (items : List Value)
    (usable : name ≠ "") : (merged.add name items).Sound := by
  constructor
  · intro empty
    rcases (mem_names_add items).mp empty with listed | rfl
    · exact sound.usable listed
    · exact usable rfl
  · rw [names_add]
    split_ifs with known
    · exact sound.once
    · have apart : merged.names.Disjoint [name] := by simpa using known
      exact sound.once.append (List.nodup_singleton name) apart

private theorem add_add (merged : Merged) (name : String) (items more : List Value) :
    (merged.add name items).add name more = merged.add name (items ++ more) := by
  induction merged with
  | nil => simp [add]
  | cons entry rest ih =>
    obtain ⟨known, old⟩ := entry
    by_cases same : known = name
    · simp [add, same]
    · simp [add, same, ih]

private theorem add_comm_of_mem {merged : Merged} {name other : String}
    (listed : name ∈ merged.names) (different : other ≠ name) (items others : List Value) :
    (merged.add other others).add name items = (merged.add name items).add other others := by
  induction merged with
  | nil => simp [names] at listed
  | cons entry rest ih =>
    obtain ⟨known, old⟩ := entry
    by_cases same : known = name
    · subst same
      have apart : ¬ known = other := fun h => different h.symm
      simp [add, apart]
    · have later : name ∈ names rest := by
        rcases List.mem_cons.mp listed with here | later
        · exact absurd here.symm same
        · exact later
      by_cases here : known = other
      · simp [add, here, different]
      · simp [add, here, same, ih later]

theorem addEntries_cons (merged : Merged) (entry : Option String × Value) (rest : Entries) :
    merged.addEntries (entry :: rest) = (merged.addEntry entry).addEntries rest := rfl

private theorem addEntry_items (merged : Merged) {name : String} (usable : name ≠ "")
    (items : List Value) :
    merged.addEntry (some name, .list items) = merged.add name items := by
  simp [addEntry, usable, Value.items]

private theorem entries_cons (name : String) (items : List Value) (rest : Merged) :
    entries ((name, items) :: rest) = (some name, .list items) :: entries rest := rfl

private theorem addEntries_add {merged : Merged} (sound : merged.Sound) {acc : Merged}
    {name : String}
    (listed : name ∈ acc.names) (absent : name ∉ merged.names) (items : List Value) :
    (acc.addEntries merged.entries).add name items =
      (acc.add name items).addEntries merged.entries := by
  induction merged generalizing acc with
  | nil => rfl
  | cons entry rest ih =>
    obtain ⟨known, old⟩ := entry
    obtain ⟨usable, once⟩ := sound
    simp only [names_cons, List.mem_cons, not_or, List.nodup_cons] at usable once absent
    have named : known ≠ "" := fun h => usable.1 h.symm
    have different : known ≠ name := fun h => absent.1 h.symm
    have kept : name ∈ (acc.add known old).names := (mem_names_add old).mpr (Or.inl listed)
    rw [entries_cons, addEntries_cons, addEntries_cons, addEntry_items _ named,
      addEntry_items _ named, ih ⟨usable.2, once.2⟩ kept absent.2,
      add_comm_of_mem listed different]

private theorem addEntries_entries_add {merged : Merged} (sound : merged.Sound) (acc : Merged)
    {name : String} (usable : name ≠ "") (items : List Value) :
    acc.addEntries (merged.add name items).entries =
      (acc.addEntries merged.entries).add name items := by
  induction merged generalizing acc with
  | nil => exact addEntry_items acc usable items
  | cons entry rest ih =>
    obtain ⟨known, old⟩ := entry
    have ⟨unusable, once⟩ := sound
    simp only [names_cons, List.mem_cons, not_or, List.nodup_cons] at unusable once
    have named : known ≠ "" := fun h => unusable.1 h.symm
    have rest_sound : Sound rest := ⟨unusable.2, once.2⟩
    rw [entries_cons, addEntries_cons, addEntry_items _ named]
    by_cases same : known = name
    · subst same
      have listed : known ∈ (acc.add known old).names := (mem_names_add old).mpr (Or.inr rfl)
      rw [addEntries_add rest_sound listed once.1, add_add]
      simp only [add, ↓reduceIte]
      rw [entries_cons, addEntries_cons, addEntry_items _ named]
    · simp only [add, same, ↓reduceIte]
      rw [entries_cons, addEntries_cons, addEntry_items _ named, ih rest_sound]

theorem Sound.addEntry {merged : Merged} (sound : merged.Sound) (entry : Option String × Value) :
    (merged.addEntry entry).Sound := by
  obtain ⟨key, value⟩ := entry
  cases key with
  | none => exact sound
  | some name =>
    by_cases usable : name = ""
    · simpa [Merged.addEntry, usable] using sound
    · simpa [Merged.addEntry, usable] using sound.add value.items usable

private theorem addEntries_entries_addEntry {merged : Merged} (sound : merged.Sound) (acc : Merged)
    (entry : Option String × Value) :
    acc.addEntries (merged.addEntry entry).entries =
      (acc.addEntries merged.entries).addEntry entry := by
  obtain ⟨key, value⟩ := entry
  cases key with
  | none => rfl
  | some name =>
    by_cases usable : name = ""
    · simp [addEntry, usable]
    · simpa [addEntry, usable] using addEntries_entries_add sound acc usable value.items

private theorem addEntries_entries_addEntries {merged : Merged} (sound : merged.Sound)
    (acc : Merged) (entries : Entries) :
    (merged.addEntries entries).Sound ∧ acc.addEntries (merged.addEntries entries).entries =
      (acc.addEntries merged.entries).addEntries entries := by
  induction entries generalizing merged with
  | nil => exact ⟨sound, rfl⟩
  | cons entry rest ih =>
    obtain ⟨later, same⟩ := ih (sound.addEntry entry)
    rw [addEntries_cons, addEntries_cons, ← addEntries_entries_addEntry sound]
    exact ⟨later, same⟩

private theorem sound_nil : Sound [] := ⟨List.not_mem_nil, List.nodup_nil⟩

private theorem foldl_addEntries_sound {merged : Merged} (sound : merged.Sound) (acc : Merged)
    (results : List Entries) :
    (results.foldl addEntries merged).Sound ∧
      acc.addEntries (results.foldl addEntries merged).entries =
        results.foldl addEntries (acc.addEntries merged.entries) := by
  induction results generalizing merged with
  | nil => exact ⟨sound, rfl⟩
  | cons result rest ih =>
    obtain ⟨next, same⟩ := addEntries_entries_addEntries sound acc result
    obtain ⟨whole, folded⟩ := ih next
    rw [same] at folded
    exact ⟨whole, folded⟩

private theorem find_add (merged : Merged) (name other : String) (items : List Value) :
    (merged.add name items).find other =
      if other = name then merged.find name ++ items else merged.find other := by
  induction merged with
  | nil =>
    by_cases same : other = name
    · simp [add, find, same]
    · have different : (other == name) = false := by simpa using same
      simp [add, find, List.lookup_cons, same, different]
  | cons entry rest ih =>
    obtain ⟨known, old⟩ := entry
    simp only [find] at ih ⊢
    by_cases first : known = name
    · by_cases same : other = name
      · simp [add, first, same]
      · have different : (other == name) = false := by simpa using same
        simp [add, List.lookup_cons, first, same, different]
    · have notFirst : (name == known) = false := by simpa using Ne.symm first
      by_cases here : other = known
      · simp [add, first, here]
      · have notHere : (other == known) = false := by simpa using here
        simp only [add, first, ↓reduceIte, List.lookup_cons, notHere, notFirst, ih]

theorem lookup_entries (merged : Merged) (name : String) :
    ((merged.entries.lookup (some name)).map Value.items).getD [] = merged.find name := by
  induction merged with
  | nil => rfl
  | cons entry rest ih =>
    obtain ⟨known, items⟩ := entry
    rw [entries_cons, find, List.lookup_cons, List.lookup_cons]
    by_cases same : name = known
    · simp [same, Value.items]
    · have different : (name == known) = false := by simpa using same
      have different' : (some name == some known) = false := by simpa using same
      rw [different, different']
      exact ih

end Merged

def Entries.under (name : String) (entries : Entries) : List Value :=
  entries.flatMap fun entry => if entry.1 = some name then entry.2.items else []

private theorem Merged.find_addEntries (merged : Merged) {name : String} (usable : name ≠ "")
    (entries : Entries) :
    (merged.addEntries entries).find name = merged.find name ++ entries.under name := by
  induction entries generalizing merged with
  | nil => exact (List.append_nil _).symm
  | cons entry rest ih =>
    obtain ⟨key, value⟩ := entry
    have step : Entries.under name ((key, value) :: rest) =
        (if key = some name then value.items else []) ++ Entries.under name rest := rfl
    rw [addEntries_cons, ih, step, ← List.append_assoc]
    congr 1
    cases key with
    | none => simp [addEntry]
    | some known =>
      by_cases same : name = known
      · subst same
        simp [addEntry, usable, find_add]
      · have different : ¬ known = name := fun h => same h.symm
        by_cases empty : known = ""
        · have other : ¬ "" = name := fun h => usable h.symm
          simp [addEntry, empty, other]
        · simp [addEntry, empty, find_add, same, different]

/-- Under a name a merged result holds what the maps hold there, from left to right. -/
theorem find_merge {name : String} (usable : name ≠ "") (results : List Entries) :
    (merge results).find name = results.flatMap (Entries.under name) := by
  have fold : ∀ merged : Merged, (results.foldl Merged.addEntries merged).find name =
      merged.find name ++ results.flatMap (Entries.under name) := by
    induction results with
    | nil => intro merged; simp
    | cons result rest ih =>
      intro merged
      rw [List.foldl_cons, ih, Merged.find_addEntries merged usable, List.flatMap_cons,
        List.append_assoc]
  exact fold []

theorem addEntries_merge (acc : Merged) (results : List Entries) :
    acc.addEntries (merge results).entries = results.foldl Merged.addEntries acc :=
  (Merged.foldl_addEntries_sound Merged.sound_nil acc results).2

end TreePass
