import TreePass.Proofs.Analysing.Leaves

/-!
Collecting variables, and the law of all analyses whose handlers speak at the leaves only: their
result is one merge of what the leaves contribute.
-/

set_option autoImplicit false
set_option relaxedAutoImplicit false

namespace TreePass

variable {σ : Type}

def collected (leaf : Expr) : Entries :=
  match leaf.symbolName? with
  | some name => [(some "symbols", .ofNames [name])]
  | none => []

private theorem collected_under (leaf : Expr) :
    (collected leaf).under "symbols" = leaf.symbolName?.toList.map .str := by
  unfold collected
  cases leaf.symbolName? with
  | none => rfl
  | some name => simp [Entries.under, Value.ofNames, Value.items]

private theorem under_of_leaves {found : List (Expr × Entries)}
    (each : ∀ p ∈ found, p.2 = collected p.1) :
    (found.map Prod.snd).flatMap (Entries.under "symbols") =
      ((found.map Prod.fst).filterMap Node.symbolName?).map .str := by
  induction found with
  | nil => rfl
  | cons p rest ih =>
    have later := ih fun q h => each q (List.mem_cons_of_mem _ h)
    rw [List.map_cons, List.flatMap_cons, later, each p List.mem_cons_self, collected_under,
      List.map_cons, List.filterMap_cons]
    cases p.1.symbolName? <;> rfl

private theorem firstSeen_eq_eraseDups (names : List String) : firstSeen names =
    names.eraseDups := by
  have fold : ∀ seen : List String,
      names.foldl (fun seen name => if seen.contains name then seen else seen ++ [name]) seen =
        seen ++ (names.filter fun name => !seen.contains name).eraseDups := by
    induction names with
    | nil => intro seen; simp
    | cons name rest ih =>
      intro seen
      rw [List.foldl_cons, ih, List.filter_cons]
      by_cases listed : seen.contains name = true
      · have dropped : ¬ (!seen.contains name) = true := by rw [listed]; decide
        rw [if_pos listed, if_neg dropped]
      · have others : (rest.filter fun n => !(seen ++ [name]).contains n) =
            (rest.filter fun n => !seen.contains n).filter fun n => !n == name := by
          rw [List.filter_filter]
          apply List.filter_congr
          intro n _
          by_cases same : n = name
          · simp [same]
          · simp [same]
        have kept : (!seen.contains name) = true := by simpa using listed
        rw [if_neg listed, if_pos kept, List.eraseDups_cons, others, List.append_assoc,
          List.singleton_append]
  have all : (names.filter fun name => !([] : List String).contains name) = names :=
    List.filter_eq_self.mpr fun _ _ => rfl
  rw [firstSeen, fold, all, List.nil_append]

namespace Traversal

variable (flags : Flags) (env : Option Environment)

def collecting : Traversal σ := Pass.traversal { config := symbolCollector, flags := flags } env

private theorem collecting_standardAbove : (collecting flags env : Traversal σ).StandardAbove :=
  ⟨rfl, rfl, rfl, rfl, rfl⟩

private theorem collecting_answers {leaf : Expr} (simple : leaf.kind.isComposite = false)
    (topdown : Value) :
    (collecting flags env : Traversal σ).Answers topdown
      (fun leaf entries => entries = collected leaf) leaf := by
  intro scope s
  cases leaf with
  | symbol tag name => exact .of_run rfl ⟨_, rfl, rfl⟩
  | atomic tag value => exact .of_run rfl ⟨_, rfl, rfl⟩
  | primitive tag ref => exact .of_run rfl ⟨_, rfl, rfl⟩
  | call | pairlist => cases simple

private theorem analyse_collecting_ends (scope : Scope) (root : Expr) (s : Store σ) :
    ((collecting flags env).analyse .none scope root).Ends s fun entries _ =>
      ((entries.lookup (some "symbols")).map Value.items).getD [] =
        root.symbols.map .str := by
  have above : (collecting flags env : Traversal σ).StandardAbove :=
    collecting_standardAbove flags env
  have answers : ∀ leaf ∈ root.leaves, (collecting flags env : Traversal σ).Answers
      (startValue .none) (fun leaf entries => entries = collected leaf) leaf :=
    fun leaf member => collecting_answers flags env (Node.leaf_of_mem_leaves member) _
  cases composite : root.kind.isComposite with
  | true =>
    obtain ⟨found, after, -, leaves, said, visited⟩ :=
      run_visit_of_answers above composite answers (.scope scope) s
    refine .of_run visited ?_
    rw [Merged.lookup_entries, find_merge (by decide), under_of_leaves said, leaves, Node.symbols]
  | false =>
    -- A leaf at the root is not merged: its own result is that of the analysis.
    have single : root ∈ root.leaves := by
      rw [Node.leaves_of_leaf composite]
      exact List.mem_singleton_self _
    have own := answers root single
    obtain ⟨result, after, visited, rfl⟩ := run_visitLeaf_of_answers own (.scope scope) s
    rw [← visit_of_leaf _ .analysis composite] at visited
    refine .of_run visited ?_
    rw [Node.symbols, Node.leaves_of_leaf composite]
    cases root with
    | symbol tag name => rfl
    | atomic | primitive => rfl
    | call | pairlist => cases composite

end Traversal

private theorem Node.symbols_eq_of_bare {node other : Expr} (same : other.bare = node.bare) :
    other.symbols = node.symbols := by
  rw [← Node.symbols_bare other, same, Node.symbols_bare]

private theorem Pass.ensureAnnotated_ends {fn : Function} (list : fn.params.isPairlist = true)
    (s : Store σ) :
    (ensureAnnotated fn none).Ends s fun out _ => out.body.symbols = fn.body.symbols := by
  unfold ensureAnnotated
  cases fn.scope with
  | some scope => exact Action.ends_pure rfl
  | none =>
    refine (Policy.annotate_ends {} list s).mono ?_
    intro out after annotated
    exact Node.symbols_eq_of_bare annotated.body

theorem collectSymbols_ends {fn : Function} (list : fn.params.isPairlist = true) (flags : Flags)
    (unique : Bool) (s : Store σ) :
    (collectSymbols fn flags unique).Ends s fun names _ =>
      names = if unique then fn.body.symbols.eraseDups else fn.body.symbols := by
  have found : (Pass.analyseFunction { config := symbolCollector, flags := flags } fn none).Ends s
      fun entries _ => ((entries.lookup (some "symbols")).map Value.items).getD [] =
        fn.body.symbols.map .str := by
    refine Action.ends_bind_of_run (Action.run_pure () s) ?_
    refine Action.Ends.bind (Pass.ensureAnnotated_ends list s) ?_
    intro out s₁ same
    refine Action.ends_bind_of_run (Action.run_note _ s₁) ?_
    rw [← same]
    exact Traversal.analyse_collecting_ends flags out.env _ out.body _
  refine Action.Ends.bind found ?_
  intro entries s₁ held
  refine Action.ends_pure ?_
  rw [held, Policy.texts_map_str, firstSeen_eq_eraseDups]

/-- The result of an analysis is one merge of what the leaves contribute, from left to right over
arguments and defaults, whatever their handlers do and however deep the tree is. Collecting
variables gives every occurrence in that order, or each name where it occurs first. -/
theorem analysis_is_one_merge {t : Traversal σ} (above : t.StandardAbove) (root : Expr)
    (composite : root.kind.isComposite = true) (topdown : Value) (scope : Scope)
    {known : Expr → Entries → Prop}
    (answers : ∀ leaf ∈ root.leaves, t.Answers (Traversal.startValue topdown) known leaf)
    (fn : Function) (list : fn.params.isPairlist = true) (flags : Flags) (s : Store σ) :
    (∃ found merged after,
      (t.leafResults (Traversal.startValue topdown) (.scope scope) root).run s =
        (.ok found, after) ∧
      found.map Prod.fst = root.leaves ∧ (∀ p ∈ found, known p.1 p.2) ∧
      mergeResults (found.map fun p => .map p.2) = .ok merged ∧
      (t.analyse topdown scope root).run s = (.ok merged.entries, after)) ∧
    ((collectSymbols fn flags false).Ends s fun names _ => names = fn.body.symbols) ∧
    (collectSymbols fn flags true).Ends s fun names _ => names = fn.body.symbols.eraseDups := by
  refine ⟨?_, collectSymbols_ends list flags false s, collectSymbols_ends list flags true s⟩
  obtain ⟨found, after, ran, leaves, said, visited⟩ :=
    Traversal.run_visit_of_answers above composite answers (.scope scope) s
  refine ⟨found, merge (found.map Prod.snd), after, ran, leaves, said, ?_, visited⟩
  have merges := mergeResults_map (found.map Prod.snd)
  rw [List.map_map] at merges
  exact merges

/-- An analysis in which variables give a plain value and two entries without a usable name, and
literals a pair and an empty list. -/
def mixedAnalysis : Traversal Unit where
  config := ((Config.standard .analyse).install .symbol fun node _ =>
      pure (.map [(some "seen", .str (node.symbolName?.getD "")), (some "", .int 0),
        (none, .int 1)])).install .atomic fun _ _ =>
      pure (.map [(some "size", .tuple [.int 1, .int 2]), (some "seen", .list [])])
  flags := {}
  env := none
  params := []

/-- A call of `f` on `a`, a call of `g` on `2` and `b`, and a parameter list with the default
`a`. -/
def nestedCall : Expr :=
  .call 0 (.symbol 1 "f") [(none, .symbol 2 "a"),
    (none, .call 3 (.symbol 4 "g") [(none, .atomic 5 (.int 2)), (some "k", .symbol 6 "b")]),
    (none, .pairlist 7 [("p", none), ("q", some (.symbol 8 "a"))])]

private theorem mixedAnalysis_answers (leaf : Expr) (member : leaf ∈ nestedCall.leaves) :
    mixedAnalysis.Answers (Traversal.startValue .none) (fun _ _ => True) leaf := by
  intro scope s
  have simple := Node.leaf_of_mem_leaves member
  cases leaf with
  | symbol tag name => exact .of_run rfl ⟨_, rfl, trivial⟩
  | atomic tag value => exact .of_run rfl ⟨_, rfl, trivial⟩
  | primitive tag ref => exact .of_run rfl ⟨_, rfl, trivial⟩
  | call | pairlist => cases simple

theorem analysis_is_one_merge_nestedCall :
    (mixedAnalysis.StandardAbove ∧ nestedCall.kind.isComposite = true) ∧
      (∃ found merged after,
        (mixedAnalysis.leafResults (.map []) (.scope Scope.empty) nestedCall).run
          (Store.initial ()) = (.ok found, after) ∧
        found.map Prod.fst = [.symbol 2 "a", .atomic 5 (.int 2), .symbol 6 "b", .symbol 8 "a"] ∧
        mergeResults (found.map fun p => .map p.2) = .ok merged ∧
        (mixedAnalysis.analyse .none Scope.empty nestedCall).run (Store.initial ()) =
          (.ok merged.entries, after) ∧
        merged.entries = [(some "seen", .ofNames ["a", "b", "a"]),
          (some "size", .list [.int 1, .int 2])]) ∧
      ((collectSymbols ⟨.pairlist 0 [], nestedCall, none, none, none⟩ {} false).Ends
        (Store.initial ()) fun names _ => names = ["a", "b", "a"]) ∧
      (collectSymbols ⟨.pairlist 0 [], nestedCall, none, none, none⟩ {} true).Ends
        (Store.initial ()) fun names _ => names = ["a", "b"] := by
  have above : mixedAnalysis.StandardAbove := ⟨rfl, rfl, rfl, rfl, rfl⟩
  obtain ⟨⟨found, merged, after, ran, leaves, -, merges, analysed⟩, all, once⟩ :=
    analysis_is_one_merge above nestedCall rfl .none Scope.empty mixedAnalysis_answers
      ⟨.pairlist 0 [], nestedCall, none, none, none⟩ rfl {} (Store.initial ())
  have given : (.ok merged.entries : Except Fault Entries) = .ok _ :=
    (congrArg Prod.fst analysed).symm
  exact ⟨⟨above, rfl⟩, ⟨found, merged, after, ran, leaves, merges, analysed, Except.ok.inj given⟩,
    all, once⟩

end TreePass
