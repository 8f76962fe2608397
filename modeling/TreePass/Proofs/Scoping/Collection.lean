import TreePass.Proofs.Scoping.Reach
import TreePass.Proofs.Visiting

/-!
The collecting traversal finds exactly the assignments in reach, in preorder, and disturbs nothing:
it makes and changes no node, opens no scope and records no warning.
-/

set_option autoImplicit false
set_option relaxedAutoImplicit false

namespace TreePass

theorem mergeResults_map (results : List Entries) :
    mergeResults (results.map .map) = .ok (merge results) := by
  have each : ∀ entries : Entries, contribution (.map entries) = .ok entries := by
    intro entries
    cases entries <;> rfl
  have all : (results.map Value.map).mapM contribution = .ok results := by
    induction results with
    | nil => rfl
    | cons entries rest ih =>
      rw [List.map_cons, List.mapM_cons, each, ih]
      rfl
  rw [mergeResults, all]
  rfl

namespace Policy

def packed : List String → Entries
  | [] => []
  | name :: rest => [(some assignedKey, .ofNames (name :: rest))]

def gathered : List String → Merged
  | [] => []
  | name :: rest => [(assignedKey, (name :: rest).map .str)]

private theorem entries_gathered (names : List String) : (gathered names).entries =
    packed names := by
  cases names <;> rfl

private theorem gathered_addEntries (names more : List String) :
    (gathered names).addEntries (packed more) = gathered (names ++ more) := by
  cases more with
  | nil => simp [packed, Merged.addEntries]
  | cons second more =>
    cases names <;>
      simp [packed, gathered, Merged.addEntries, Merged.addEntry, Merged.add, Value.ofNames,
        Value.items, assignedKey]

private theorem merge_packed (lists : List (List String)) :
    merge (lists.map packed) = gathered lists.flatten := by
  have fold : ∀ names, (lists.map packed).foldl Merged.addEntries (gathered names) =
      gathered (names ++ lists.flatten) := by
    induction lists with
    | nil => intro names; simp
    | cons list rest ih =>
      intro names
      simp only [List.map_cons, List.foldl_cons, gathered_addEntries, ih, List.flatten_cons,
        List.append_assoc]
  exact fold []

theorem texts_map_str (names : List String) : texts (names.map .str) = names := by
  induction names with
  | nil => rfl
  | cons name rest ih => simp [texts]

private theorem texts_find_gathered (names : List String) :
    texts ((gathered names).find assignedKey) = names := by
  cases names with
  | nil => rfl
  | cons name rest =>
    have found : (gathered (name :: rest)).find assignedKey = (name :: rest).map .str := by
      simp [gathered, Merged.find]
    rw [found, texts_map_str]

end Policy

namespace Store

variable {σ : Type}

/-- No node, scope or warning is new or changed, and handlers keep what they kept. -/
structure Idle (before after : Store σ) : Prop where
  tables : after.tables = before.tables
  scopes : after.scopes = before.scopes
  warnings : after.warnings = before.warnings
  user : after.user = before.user

theorem Idle.refl (s : Store σ) : Idle s s := ⟨rfl, rfl, rfl, rfl⟩

theorem Idle.trans {a b c : Store σ} (first : Idle a b) (second : Idle b c) : Idle a c :=
  ⟨second.tables.trans first.tables, second.scopes.trans first.scopes,
    second.warnings.trans first.warnings, second.user.trans first.user⟩

end Store

namespace Policy

variable {σ : Type} (policy : Policy)

private theorem run_descend_of_opaque (topdown scope : Value) {node : Expr}
    (hidden : policy.isOpaque node = true) (s : Store σ) :
    (policy.collection.descend none topdown scope node).run s =
      (.ok (.skipped (.map [])), { s with visits := s.visits + 1 }) := by
  rw [Traversal.descend, Action.run_bind_of_ok (Action.run_newVisit s)]
  apply Action.run_catchSkip_of_skip
  change (policy.skipOpaque node _).run _ = _
  simp only [skipOpaque, hidden, ↓reduceIte]
  rfl

private theorem run_descend_of_clear (topdown scope : Value) {node : Expr}
    (clear : policy.isOpaque node = false) (s : Store σ) :
    (policy.collection.descend none topdown scope node).run s =
      (.ok (.done topdown), { s with visits := s.visits + 1 }) := by
  rw [Traversal.descend, Action.run_bind_of_ok (Action.run_newVisit s)]
  apply Action.run_catchSkip_of_ok
  change (policy.skipOpaque node _).run _ = _
  simp only [skipOpaque, clear, Bool.false_eq_true, ↓reduceIte]
  rfl

theorem run_mergeAnalysis (lists : List (List String)) (node : Expr) (ctx : Context σ)
    (below : ctx.bottomup = some ((lists.map packed).map .map)) (s : Store σ) :
    (Standard.mergeAnalysis.run node ctx).run s = (.ok (.map (packed lists.flatten)), s) := by
  have merged : mergeResults (ctx.bottomup.getD []) = .ok (gathered lists.flatten) := by
    rw [below, Option.getD_some, mergeResults_map, merge_packed]
  simp only [Standard.run]
  rw [merged, Action.run_bind_of_ok (Action.run_ofExcept_ok _ s), entries_gathered]
  rfl

private theorem run_recordBinding (names : List String) (node : Expr) (ctx : Context σ)
    (s : Store σ) (rest : (ctx.callNext node).run s = (.ok (.map (packed names)), s)) :
    (policy.recordBinding node ctx).run s =
      (.ok (.map (packed ((policy.boundName? node).toList ++ names))), s) := by
  rw [recordBinding, Action.run_bind_of_ok rest]
  cases policy.boundName? node with
  | none => rfl
  | some name =>
    have merged : mergeResults [.map [(some assignedKey, .ofNames [name])], .map (packed names)] =
        .ok (gathered (name :: names)) := by
      have both := merge_packed [[name], names]
      simp only [List.flatten_cons, List.flatten_nil, List.append_nil] at both
      exact (mergeResults_map [packed [name], packed names]).trans (congrArg _ both)
    change (Action.ofExcept (mergeResults [_, _]) >>= _).run s = _
    rw [merged, Action.run_bind_of_ok (Action.run_ofExcept_ok _ s), entries_gathered]
    rfl

private theorem run_ascend_call (inner scope : Value) (tag : Tag) (callee : Expr)
    (args : List (Option String × Expr)) (lists : List (List String)) (s : Store σ) :
    (policy.collection.ascend .analysis none inner scope (.call tag callee args)
      (lists.map packed)).run s =
      (.ok (packed ((policy.boundName? (.call tag callee args)).toList ++ lists.flatten)), s) := by
  let ctx : Context σ :=
    policy.collection.context inner scope (some ((lists.map packed).map .map)) none
  have merged := run_mergeAnalysis lists (.call tag callee args) { ctx with next := none } rfl s
  have ran : (Traversal.invoke ctx (policy.collection.config.fullChain .call none)
      (.call tag callee args)).run s = _ := policy.run_recordBinding lists.flatten _ _ s merged
  exact Action.run_bind_of_ok ran

private theorem run_ascend_pairlist (inner scope : Value) (tag : Tag)
    (params : List (String × Option Expr)) (lists : List (List String)) (s : Store σ) :
    (policy.collection.ascend .analysis none inner scope (.pairlist tag params)
      (lists.map packed)).run s = (.ok (packed lists.flatten), s) := by
  let ctx : Context σ :=
    policy.collection.context inner scope (some ((lists.map packed).map .map)) none
  have ran : (Traversal.invoke ctx (policy.collection.config.fullChain .pairlist none)
      (.pairlist tag params)).run s = _ :=
    run_mergeAnalysis lists (.pairlist tag params) { ctx with next := none } rfl s
  exact Action.run_bind_of_ok ran

theorem run_visitLeaf (topdown inherited : Value) {node : Expr}
    (leaf : node.kind.isComposite = false) (s : Store σ) :
    (policy.collection.visitLeaf .analysis topdown inherited node).run s = (.ok [], s) := by
  rw [Traversal.visitLeaf, Action.run_bind_of_ok (Traversal.run_scopeAt node inherited s)]
  cases node with
  | atomic | symbol | primitive => rfl
  | pairlist | call => cases leaf

private theorem visitArgs_ends {args : List (Option String × Expr)} (topdown inherited : Value)
    (each : ∀ a ∈ args, ∀ s : Store σ,
      (policy.collection.visit .analysis topdown inherited a.2).Ends s fun found s' =>
        found = packed (policy.assignments a.2) ∧ Store.Idle s s') (s : Store σ) :
    (policy.collection.visitArgs .analysis topdown inherited args).Ends s fun results s' =>
      (∃ lists : List (List String), results = lists.map packed ∧
        lists.flatten = policy.assignmentsOfArgs args) ∧ Store.Idle s s' := by
  induction args generalizing s with
  | nil => exact Action.ends_pure ⟨⟨[], rfl, rfl⟩, Store.Idle.refl s⟩
  | cons a rest ih =>
    obtain ⟨name, a⟩ := a
    refine Action.Ends.bind (each (name, a) List.mem_cons_self s) ?_
    rintro found s₁ ⟨rfl, idle⟩
    refine Action.Ends.bind (ih (fun b h => each b (List.mem_cons_of_mem _ h)) s₁) ?_
    rintro results s₂ ⟨⟨lists, rfl, flat⟩, idle'⟩
    refine Action.ends_pure ⟨⟨policy.assignments a :: lists, rfl, ?_⟩, idle.trans idle'⟩
    simp only [List.flatten_cons, assignmentsOfArgs, flat]

private theorem visitParams_ends {params : List (String × Option Expr)} (topdown inherited : Value)
    (each : ∀ p ∈ params, ∀ d ∈ p.2, ∀ s : Store σ,
      (policy.collection.visit .analysis topdown inherited d).Ends s fun found s' =>
        found = packed (policy.assignments d) ∧ Store.Idle s s') (s : Store σ) :
    (policy.collection.visitParams .analysis topdown inherited params).Ends s fun results s' =>
      (∃ lists : List (List String), results = lists.map packed ∧
        lists.flatten = policy.assignmentsOfParams params) ∧ Store.Idle s s' := by
  induction params generalizing s with
  | nil => exact Action.ends_pure ⟨⟨[], rfl, rfl⟩, Store.Idle.refl s⟩
  | cons p rest ih =>
    have later := ih fun q h => each q (List.mem_cons_of_mem _ h)
    obtain ⟨name, d | d⟩ := p
    · exact later s
    · refine Action.Ends.bind (each (name, some d) List.mem_cons_self d rfl s) ?_
      rintro found s₁ ⟨rfl, idle⟩
      refine Action.Ends.bind (later s₁) ?_
      rintro results s₂ ⟨⟨lists, rfl, flat⟩, idle'⟩
      refine Action.ends_pure ⟨⟨policy.assignments d :: lists, rfl, ?_⟩, idle.trans idle'⟩
      simp only [List.flatten_cons, assignmentsOfParams, flat]

private theorem visit_collection_ends (topdown inherited : Value) (node : Expr) (s : Store σ) :
    (policy.collection.visit .analysis topdown inherited node).Ends s fun found s' =>
      found = packed (policy.assignments node) ∧ Store.Idle s s' := by
  induction node using Node.induction generalizing topdown inherited s with
  | atomic tag value =>
    exact Action.Ends.of_run (policy.run_visitLeaf topdown inherited rfl s) ⟨rfl, .refl s⟩
  | symbol tag name =>
    exact Action.Ends.of_run (policy.run_visitLeaf topdown inherited rfl s) ⟨rfl, .refl s⟩
  | primitive tag ref =>
    exact Action.Ends.of_run (policy.run_visitLeaf topdown inherited rfl s) ⟨rfl, .refl s⟩
  | pairlist tag params ih =>
    rw [Traversal.visit]
    refine Action.ends_bind_of_run (Traversal.run_scopeAt _ inherited s) ?_
    refine Action.ends_bind_of_run (policy.run_descend_of_clear topdown _ rfl s) ?_
    refine Action.Ends.bind (policy.visitParams_ends _ _ (fun p h d hd => ih p h d hd _ _) _) ?_
    rintro results s' ⟨⟨lists, rfl, flat⟩, idle⟩
    refine Action.Ends.of_run (policy.run_ascend_pairlist _ _ tag params lists s') ?_
    rw [flat]
    exact ⟨rfl, idle.tables, idle.scopes, idle.warnings, idle.user⟩
  | call tag callee args ihc iha =>
    rw [Traversal.visit]
    refine Action.ends_bind_of_run (Traversal.run_scopeAt _ inherited s) ?_
    rw [Traversal.resolve_of_no_targets _ rfl]
    refine Action.ends_bind_of_run (Action.run_pure none s) ?_
    cases clear : policy.isOpaque (.call tag callee args) with
    | true =>
      refine Action.ends_bind_of_run (policy.run_descend_of_opaque topdown _ clear s) ?_
      refine ⟨[], _, rfl, ?_, ⟨rfl, rfl, rfl, rfl⟩⟩
      simp [assignments, clear, packed]
    | false =>
      refine Action.ends_bind_of_run (policy.run_descend_of_clear topdown _ clear s) ?_
      refine Action.Ends.bind (policy.visitArgs_ends _ _ (fun a h => iha a h _ _) _) ?_
      rintro results s' ⟨⟨lists, rfl, flat⟩, idle⟩
      refine Action.Ends.of_run (policy.run_ascend_call _ _ tag callee args lists s') ⟨?_, ?_⟩
      · simp [assignments, clear, flat]
      · exact ⟨idle.tables, idle.scopes, idle.warnings, idle.user⟩

private theorem assignedIn_ends (params body : Expr) (s : Store σ) :
    (policy.assignedIn params body).Ends s fun assigned s' =>
      assigned = NameSet.ofNames (policy.assignments params ++ policy.assignments body) ∧
        Store.Idle s s' := by
  refine Action.Ends.bind (policy.visit_collection_ends _ _ params s) ?_
  rintro fromParams s₁ ⟨rfl, idle⟩
  refine Action.Ends.bind (policy.visit_collection_ends _ _ body s₁) ?_
  rintro fromBody s₂ ⟨rfl, idle'⟩
  refine Action.ends_pure ⟨?_, idle.trans idle'⟩
  have merged := merge_packed [policy.assignments params, policy.assignments body]
  simp only [List.map_cons, List.map_nil, List.flatten_cons, List.flatten_nil,
    List.append_nil] at merged
  rw [merged, texts_find_gathered]

theorem collect_ends (params body : Expr) {names : List String}
    (declared : params.paramNames? = some names) (enclosing : NameSet) (s : Store σ) :
    (policy.collect params body enclosing).Ends s fun scope s' =>
      let assigned := NameSet.ofNames (policy.assignments params ++ policy.assignments body)
      scope = ⟨s.scopes, assigned, assigned.union ((NameSet.ofNames names).union enclosing)⟩ ∧
        s'.scopes = s.scopes + 1 ∧ s'.tables = s.tables ∧ Store.Frame [] s s' := by
  refine Action.Ends.bind (policy.assignedIn_ends params body s) ?_
  rintro assigned s' ⟨rfl, idle⟩
  rw [declared]
  refine Action.Ends.of_run (Action.run_newScope _ _ s') ⟨?_, ?_, idle.tables, ?_⟩
  · rw [idle.scopes]
  · rw [idle.scopes]
  · exact Store.frame_of_tables_eq idle.tables idle.warnings idle.user

end Policy

end TreePass
