import TreePass.Proofs.Analysing.Merging

/-!
Merging as a homomorphism. Merging is determined by what it says of the results it is given: the
names are their usable keys in order of first appearance, and a name has the items of all results
one after the other. So merging two merged halves is the same as merging the whole, and a merged
result is left as it is by another merge, down to the order of its names.
-/

set_option autoImplicit false
set_option relaxedAutoImplicit false

namespace TreePass

def Entries.usableKeys (entries : Entries) : List String :=
  entries.filterMap fun entry => entry.1.filter (· != "")

/-- The entries a result brings along: those of a map; any other value has none. -/
def Value.held (result : Value) : Entries := result.entries?.getD []

/-- What can be merged: a map, or a value that counts as false. -/
def Value.IsResult (result : Value) : Prop :=
  result.isTrue = true → ∃ entries, result = .map entries

theorem Value.isResult_map (entries : Entries) : (Value.map entries).IsResult :=
  fun _ => ⟨entries, rfl⟩

/-- What merging makes of results. -/
structure Merged.Gathers (results : List Value) (merged : Merged) : Prop where
  /-- The names are the usable keys of all results, in order of first appearance. -/
  names : merged.names = (results.flatMap fun result => result.held.usableKeys).eraseDups
  /-- A name is there exactly if it is a usable key of some result. -/
  listed : ∀ name, name ∈ merged.names ↔
    name ≠ "" ∧ ∃ result ∈ results, ∃ entry ∈ result.held, entry.1 = some name
  /-- A name that is there has the items of all results, from left to right. -/
  items : ∀ name, name ∈ merged.names →
    merged.lookup name = some (results.flatMap fun result => result.held.under name)

private theorem Entries.mem_usableKeys {entries : Entries} {name : String} :
    name ∈ entries.usableKeys ↔ name ≠ "" ∧ ∃ entry ∈ entries, entry.1 = some name := by
  simp only [usableKeys, List.mem_filterMap, Option.filter_eq_some_iff, bne_iff_ne]
  constructor
  · rintro ⟨entry, there, key, usable⟩
    exact ⟨usable, entry, there, key⟩
  · rintro ⟨usable, entry, there, key⟩
    exact ⟨entry, there, key, usable⟩

namespace Merged

private theorem names_addEntry {merged : Merged} {seen : List String}
    (named : merged.names = seen.eraseDups) (entry : Option String × Value) :
    (merged.addEntry entry).names = (seen ++ Entries.usableKeys [entry]).eraseDups := by
  obtain ⟨key, value⟩ := entry
  cases key with
  | none => simpa [addEntry, Entries.usableKeys] using named
  | some name =>
    by_cases empty : name = ""
    · simpa [addEntry, Entries.usableKeys, empty] using named
    · have kept : Option.filter (· != "") (some name) = some name := by
        simpa using empty
      have key : Entries.usableKeys [(some name, value)] = [name] :=
        List.filterMap_cons_some kept
      have step : merged.addEntry (some name, value) = merged.add name value.items := by
        simp only [addEntry, if_neg empty]
      rw [step, names_add, key, List.eraseDups_append, named]
      by_cases old : name ∈ seen
      · simp [old, List.removeAll]
      · simp [old, List.removeAll, List.eraseDups_cons]

private theorem names_addEntries {merged : Merged} {seen : List String}
    (named : merged.names = seen.eraseDups) (entries : Entries) :
    (merged.addEntries entries).names = (seen ++ entries.usableKeys).eraseDups := by
  induction entries generalizing merged seen with
  | nil => simpa [addEntries, Entries.usableKeys] using named
  | cons entry rest ih =>
    have keys : Entries.usableKeys (entry :: rest) =
        Entries.usableKeys [entry] ++ Entries.usableKeys rest :=
      List.filterMap_append (l := [entry])
    rw [addEntries_cons, ih (names_addEntry named entry), keys, List.append_assoc]

private theorem lookup_eq_some_find {merged : Merged} {name : String}
    (listed : name ∈ merged.names) : merged.lookup name = some (merged.find name) := by
  obtain ⟨⟨known, items⟩, there, rfl⟩ := List.mem_map.mp listed
  cases found : merged.lookup known with
  | none => exact absurd there (by simpa using List.lookup_eq_none_iff.mp found (known, items))
  | some items => simp [find, found]

end Merged

private theorem names_merge (results : List Entries) :
    (merge results).names = (results.flatMap Entries.usableKeys).eraseDups := by
  have fold : ∀ (merged : Merged) (seen : List String), merged.names = seen.eraseDups →
      (results.foldl Merged.addEntries merged).names =
        (seen ++ results.flatMap Entries.usableKeys).eraseDups := by
    induction results with
    | nil => intro merged seen named; simpa using named
    | cons result rest ih =>
      intro merged seen named
      rw [List.foldl_cons, ih _ _ (Merged.names_addEntries named result), List.flatMap_cons,
        List.append_assoc]
  exact fold [] [] rfl

private theorem merge_append (left right : List Entries) :
    merge (left ++ right) = merge [(merge left).entries, (merge right).entries] := by
  have first : Merged.addEntries [] (merge left).entries = merge left := addEntries_merge [] left
  calc merge (left ++ right)
      = right.foldl Merged.addEntries (merge left) := List.foldl_append
    _ = (merge left).addEntries (merge right).entries := (addEntries_merge _ right).symm
    _ = (Merged.addEntries [] (merge left).entries).addEntries (merge right).entries := by
        rw [first]
    _ = merge [(merge left).entries, (merge right).entries] := rfl

private theorem merge_entries_merge (results : List Entries) :
    merge [(merge results).entries] = merge results :=
  addEntries_merge [] results

private theorem contribution_eq_held {result : Value} (mergeable : result.IsResult) :
    contribution result = .ok result.held := by
  unfold contribution
  by_cases counts : result.isTrue = true
  · obtain ⟨entries, rfl⟩ := mergeable counts
    rw [if_pos counts]
    rfl
  · rw [if_neg counts]
    cases result with
    | map entries =>
      have empty : entries = [] := by simpa [Value.isTrue] using counts
      rw [empty]
      rfl
    | _ => rfl

theorem mergeResults_eq_merge {results : List Value}
    (mergeable : ∀ result ∈ results, result.IsResult) :
    mergeResults results = .ok (merge (results.map Value.held)) := by
  have each : results.mapM contribution = .ok (results.map Value.held) := by
    induction results with
    | nil => rfl
    | cons result rest ih =>
      rw [List.mapM_cons, contribution_eq_held (mergeable result List.mem_cons_self),
        ih fun other there => mergeable other (List.mem_cons_of_mem _ there)]
      rfl
  rw [mergeResults, each]
  rfl

private theorem merge_gathers (results : List Value) :
    Merged.Gathers results (merge (results.map Value.held)) := by
  have named : (merge (results.map Value.held)).names =
      (results.flatMap fun result => result.held.usableKeys).eraseDups := by
    rw [names_merge, List.flatMap_map]
  have listed : ∀ name, name ∈ (merge (results.map Value.held)).names ↔
      name ≠ "" ∧ ∃ result ∈ results, ∃ entry ∈ result.held, entry.1 = some name := by
    intro name
    rw [named, List.mem_eraseDups, List.mem_flatMap]
    simp only [Entries.mem_usableKeys]
    constructor
    · rintro ⟨result, there, usable, key⟩
      exact ⟨usable, result, there, key⟩
    · rintro ⟨usable, result, there, key⟩
      exact ⟨result, there, usable, key⟩
  refine ⟨named, listed, fun name there => ?_⟩
  have usable : name ≠ "" := ((listed name).mp there).1
  rw [Merged.lookup_eq_some_find there, find_merge usable, List.flatMap_map]

/-- Merging is a homomorphism: it takes the concatenation of two lists of results to the merge of
the two merged results, order of names included. What it gives is fixed by the results: their
usable keys in order of first appearance, each with all its items from left to right. -/
theorem mergeResults_append {left right : List Value}
    (mergeable : ∀ result ∈ left ++ right, result.IsResult) :
    ∃ whole first second : Merged,
      mergeResults (left ++ right) = .ok whole ∧ mergeResults left = .ok first ∧
      mergeResults right = .ok second ∧
      mergeResults [.map first.entries, .map second.entries] = .ok whole ∧
      mergeResults [.map first.entries] = .ok first ∧ mergeResults [] = .ok [] ∧
      Merged.Gathers left first := by
  have onLeft : ∀ result ∈ left, result.IsResult := fun result there =>
    mergeable result (List.mem_append_left _ there)
  have onRight : ∀ result ∈ right, result.IsResult := fun result there =>
    mergeable result (List.mem_append_right _ there)
  have again : ∀ results : List Merged,
      ∀ result ∈ results.map fun merged => Value.map merged.entries, result.IsResult := by
    intro results result there
    obtain ⟨merged, -, rfl⟩ := List.mem_map.mp there
    exact Value.isResult_map _
  refine ⟨_, _, _, mergeResults_eq_merge mergeable, mergeResults_eq_merge onLeft,
    mergeResults_eq_merge onRight, ?_, ?_, rfl, merge_gathers left⟩
  · rw [List.map_append, merge_append]
    exact mergeResults_eq_merge (again [_, _])
  · exact (mergeResults_eq_merge (again [_])).trans
      (congrArg Except.ok (merge_entries_merge (left.map Value.held)))

/-- Empty lists, tuples, single items, unusable keys and missing results on both sides. -/
theorem mergeResults_append_mixedResults :
    let left : List Value :=
      [.map [(some "a", .list []), (none, .int 1), (some "", .int 2)], .none,
        .map [(some "b", .tuple [.int 1, .list [.int 2]])]]
    let right : List Value :=
      [.map [(some "b", .int 3), (some "a", .list [.int 4])], .bool false]
    (∀ result ∈ left ++ right, result.IsResult) ∧
      ∃ whole first second : Merged,
        whole = [("a", [.int 4]), ("b", [.int 1, .list [.int 2], .int 3])] ∧
        first = [("a", []), ("b", [.int 1, .list [.int 2]])] ∧
        second = [("b", [.int 3]), ("a", [.int 4])] ∧
        mergeResults (left ++ right) = .ok whole ∧ mergeResults left = .ok first ∧
        mergeResults right = .ok second ∧
        mergeResults [.map first.entries, .map second.entries] = .ok whole ∧
        mergeResults [.map first.entries] = .ok first ∧ mergeResults [] = .ok [] ∧
        Merged.Gathers left first := by
  intro left right
  have mergeable : ∀ result ∈ left ++ right, result.IsResult := by
    intro result there
    simp only [left, right, List.cons_append, List.nil_append, List.mem_cons, List.not_mem_nil,
      or_false] at there
    rcases there with rfl | rfl | rfl | rfl | rfl
    · exact Value.isResult_map _
    · exact fun counts => nomatch counts
    · exact Value.isResult_map _
    · exact Value.isResult_map _
    · exact fun counts => nomatch counts
  refine ⟨mergeable, ?_⟩
  obtain ⟨whole, first, second, wholeEq, firstEq, secondEq, rest⟩ := mergeResults_append mergeable
  refine ⟨whole, first, second, ?_, ?_, ?_, wholeEq, firstEq, secondEq, rest⟩
  · exact (Except.ok.inj wholeEq).symm
  · exact (Except.ok.inj firstEq).symm
  · exact (Except.ok.inj secondEq).symm

end TreePass
