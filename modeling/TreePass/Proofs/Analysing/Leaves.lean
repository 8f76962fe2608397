import TreePass.Proofs.Analysing.Merging
import TreePass.Proofs.Dispatch.Tracing
import TreePass.Proofs.Scoping.Annotation

/-!
Analyses are flat. Where only standard handlers run above the leaves, the result of an analysis is
one merge of what the leaves contribute, from left to right: merging at every level on the way up
adds nothing, drops nothing and moves nothing. Collecting variables is the case in which every
variable contributes its name.
-/

set_option autoImplicit false
set_option relaxedAutoImplicit false

namespace TreePass

variable {σ : Type}

namespace Node

mutual

/-- The leaves that arguments and defaults lead to, from left to right. -/
def leaves : Node Value → List Expr
  | .call _ _ args => leavesOfArgs args
  | .pairlist _ params => leavesOfParams params
  | .atomic tag value => [.atomic tag value]
  | .symbol tag name => [.symbol tag name]
  | .primitive tag ref => [.primitive tag ref]

def leavesOfArgs : List (Option String × Node Value) → List Expr
  | [] => []
  | (_, a) :: rest => leaves a ++ leavesOfArgs rest

def leavesOfParams : List (String × Option (Node Value)) → List Expr
  | [] => []
  | (_, none) :: rest => leavesOfParams rest
  | (_, some d) :: rest => leaves d ++ leavesOfParams rest

end

/-- The variables that arguments and defaults lead to, once for each occurrence. -/
def symbols (node : Expr) : List String := node.leaves.filterMap symbolName?

theorem leaves_of_leaf {node : Expr} (simple : node.kind.isComposite = false) :
    node.leaves = [node] := by
  cases node with
  | atomic | symbol | primitive => rfl
  | call | pairlist => cases simple

private theorem leaves_of_composite {node : Expr} (composite : node.kind.isComposite = true) :
    node.leaves = (Traversal.traversed node).flatMap leaves := by
  have ofArgs (args : List (Option String × Expr)) :
      leavesOfArgs args = (args.map (·.2)).flatMap leaves := by
    induction args with
    | nil => rfl
    | cons a rest ih => rw [leavesOfArgs, ih, List.map_cons, List.flatMap_cons]
  have ofParams (params : List (String × Option Expr)) :
      leavesOfParams params = (defaults params).flatMap leaves := by
    induction params with
    | nil => rfl
    | cons p rest ih =>
      obtain ⟨name, d | d⟩ := p
      · exact ih
      · rw [leavesOfParams, ih]
        rfl
  cases node with
  | atomic | symbol | primitive => cases composite
  | call tag callee args => exact ofArgs args
  | pairlist tag params => exact ofParams params

theorem leaf_of_mem_leaves {node leaf : Expr} (member : leaf ∈ node.leaves) :
    leaf.kind.isComposite = false := by
  have step {node : Expr} (composite : node.kind.isComposite = true)
      (each : ∀ n ∈ Traversal.traversed node, leaf ∈ n.leaves → leaf.kind.isComposite = false)
      (member : leaf ∈ node.leaves) : leaf.kind.isComposite = false := by
    rw [leaves_of_composite composite] at member
    obtain ⟨n, below, listed⟩ := List.mem_flatMap.mp member
    exact each n below listed
  induction node using Node.induction with
  | atomic | symbol | primitive =>
    rw [leaves_of_leaf rfl] at member
    obtain rfl := List.mem_singleton.mp member
    rfl
  | pairlist tag params ih =>
    refine step rfl (fun n below => ?_) member
    obtain ⟨p, listed, given⟩ := List.mem_filterMap.mp below
    exact ih p listed n given
  | call tag callee args _ ih =>
    refine step rfl (fun n below => ?_) member
    obtain ⟨a, listed, rfl⟩ := List.mem_map.mp below
    exact ih a listed

private theorem leaves_bare (node : Expr) : node.bare.leaves = node.leaves.map bare := by
  induction node using Node.induction with
  | atomic | symbol | primitive => rfl
  | pairlist tag params ih =>
    have ofParams : leavesOfParams (bareParams params) = (leavesOfParams params).map bare := by
      induction params with
      | nil => rfl
      | cons p rest rest_ih =>
        have later := rest_ih fun q h => ih q (List.mem_cons_of_mem _ h)
        obtain ⟨name, d | d⟩ := p
        · exact later
        · rw [bareParams, leavesOfParams, leavesOfParams, List.map_append, later,
            ih (name, some d) List.mem_cons_self d rfl]
    exact ofParams
  | call tag callee args _ ih =>
    have ofArgs : leavesOfArgs (bareArgs args) = (leavesOfArgs args).map bare := by
      induction args with
      | nil => rfl
      | cons a rest rest_ih =>
        obtain ⟨name, a⟩ := a
        have first := ih (name, a) List.mem_cons_self
        rw [bareArgs, leavesOfArgs, leavesOfArgs, List.map_append, first,
          rest_ih fun b h => ih b (List.mem_cons_of_mem _ h)]
    exact ofArgs

theorem symbols_bare (node : Expr) : node.bare.symbols = node.symbols := by
  have each : symbolName? ∘ bare = (symbolName? : Expr → Option String) := by
    funext n
    cases n <;> rfl
  rw [symbols, symbols, leaves_bare, List.filterMap_map, each]

end Node

namespace Traversal

mutual

/-- Visits the leaves that arguments and defaults lead to, from left to right, and keeps each of
them with its result; nothing is merged. -/
def leafResults (t : Traversal σ) (topdown inherited : Value) :
    Node Value → Action σ (List (Expr × Entries))
  | .call tag callee args => do
    let scope ← scopeAt (.call tag callee args) inherited
    let _ ← Action.newVisit
    leafResultsOfArgs t topdown scope args
  | .pairlist tag params => do
    let scope ← scopeAt (.pairlist tag params) inherited
    let _ ← Action.newVisit
    leafResultsOfParams t topdown scope params
  | .atomic tag value => do
    return [(.atomic tag value, ← t.visitLeaf .analysis topdown inherited (.atomic tag value))]
  | .symbol tag name => do
    return [(.symbol tag name, ← t.visitLeaf .analysis topdown inherited (.symbol tag name))]
  | .primitive tag ref => do
    return [(.primitive tag ref, ← t.visitLeaf .analysis topdown inherited (.primitive tag ref))]

def leafResultsOfArgs (t : Traversal σ) (topdown inherited : Value) :
    List (Option String × Node Value) → Action σ (List (Expr × Entries))
  | [] => pure []
  | (_, a) :: rest => do
    let found ← leafResults t topdown inherited a
    return found ++ (← leafResultsOfArgs t topdown inherited rest)

def leafResultsOfParams (t : Traversal σ) (topdown inherited : Value) :
    List (String × Option (Node Value)) → Action σ (List (Expr × Entries))
  | [] => pure []
  | (_, none) :: rest => leafResultsOfParams t topdown inherited rest
  | (_, some d) :: rest => do
    let found ← leafResults t topdown inherited d
    return found ++ (← leafResultsOfParams t topdown inherited rest)

end

/-- An analysis in which only standard handlers run above the leaves. -/
structure StandardAbove (t : Traversal σ) : Prop where
  mode : t.config.mode = .analyse
  pairlist : t.config.installed .pairlist = []
  call : t.config.installed .call = []
  topdown : t.config.installed .topdown = []
  untargeted : t.config.hasTargets = false

/-- Whatever the scope and the store, the handlers of the leaf end with a map, of which `known`
holds. -/
def Answers (t : Traversal σ) (topdown : Value) (known : Expr → Entries → Prop) (leaf : Expr) :
    Prop :=
  ∀ scope s, (invoke (t.context topdown scope (some []) none)
    (t.config.chain (Slot.ofKind leaf.kind)) leaf).Ends s fun value _ =>
      ∃ entries, value = .map entries ∧ known leaf entries

/-- The leaves of the nodes were visited from one store to another; a visit of the nodes gives
results that add up to those of the leaves. -/
structure Gathers (t : Traversal σ) (topdown : Value) (known : Expr → Entries → Prop)
    (inherited : Value) (nodes : List Expr) (s : Store σ) (found : List (Expr × Entries))
    (results : List Entries) (after : Store σ) : Prop where
  visited : (t.visitAll .analysis topdown inherited nodes).run s = (.ok results, after)
  leaves : found.map Prod.fst = nodes.flatMap Node.leaves
  said : ∀ p ∈ found, known p.1 p.2
  adds : ∀ acc : Merged,
    results.foldl Merged.addEntries acc = (found.map Prod.snd).foldl Merged.addEntries acc

variable {t : Traversal σ} {topdown : Value} {known : Expr → Entries → Prop}

theorem Gathers.visit {inherited : Value} {node : Expr} {s after : Store σ}
    {found : List (Expr × Entries)} {result : Entries}
    (gathers : t.Gathers topdown known inherited [node] s found [result] after) :
    (t.visit .analysis topdown inherited node).run s = (.ok result, after) := by
  obtain ⟨alone, s₁, visited, ended⟩ := Action.run_bind_eq_ok.mp gathers.visited
  have ended' : (pure [alone] : Action σ (List Entries)).run s₁ = (.ok [result], after) := ended
  obtain ⟨same, rfl⟩ := Action.ok_inj ended'
  obtain ⟨rfl, -⟩ := List.cons.inj same
  exact visited

private theorem fullChain_none (t : Traversal σ) (slot : Slot) :
    t.config.fullChain slot none = t.config.chain slot := rfl

theorem run_visitLeaf_of_answers {leaf : Expr} (answers : t.Answers topdown known leaf)
    (inherited : Value) (s : Store σ) : ∃ result after,
    (t.visitLeaf .analysis topdown inherited leaf).run s = (.ok result, after) ∧
      known leaf result := by
  obtain ⟨_, after, ran, entries, rfl, said⟩ := answers ((s.stamp? leaf).getD inherited) s
  refine ⟨entries, after, ?_, said⟩
  have ready : ((Shape.analysis : Shape σ Entries).leaf leaf).run s = (.ok leaf, s) := rfl
  rw [visitLeaf, Action.run_bind_of_ok (run_scopeAt leaf inherited s),
    Action.run_bind_of_ok ready, fullChain_none]
  exact (Action.run_bind_of_ok ran).trans rfl

namespace StandardAbove

private theorem chain_eq (above : t.StandardAbove) {slot : Slot}
    (higher : slot = .pairlist ∨ slot = .call ∨ slot = .topdown) :
    t.config.chain slot = [.standard (Standard.ofSlot .analyse slot)] := by
  rw [Config.chain, above.mode]
  rcases higher with rfl | rfl | rfl
  · rw [above.pairlist]; rfl
  · rw [above.call]; rfl
  · rw [above.topdown]; rfl

private theorem targetOf_eq (above : t.StandardAbove) (node : Expr) (scope : Value) :
    t.targetOf node scope = pure none := by
  cases node with
  | call tag callee args => exact t.resolve_of_no_targets above.untargeted callee scope
  | atomic | symbol | primitive | pairlist => rfl

theorem run_descend (above : t.StandardAbove) (scope : Value) (node : Expr) (s : Store σ) :
    (t.descend none topdown scope node).run s =
      (.ok (.done topdown), { s with visits := s.visits + 1 }) := by
  rw [descend, Action.run_bind_of_ok (Action.run_newVisit s), fullChain_none,
    above.chain_eq (Or.inr (Or.inr rfl))]
  exact Action.run_catchSkip_of_ok rfl

theorem run_ascend (above : t.StandardAbove) {node : Expr}
    (composite : node.kind.isComposite = true) (scope : Value) (results : List Entries)
    (s : Store σ) :
    (t.ascend .analysis none topdown scope node results).run s =
      (.ok (merge results).entries, s) := by
  have chain : t.config.chain (Slot.ofKind node.kind) = [.standard .mergeAnalysis] := by
    cases node with
    | atomic | symbol | primitive => cases composite
    | pairlist => exact above.chain_eq (Or.inl rfl)
    | call => exact above.chain_eq (Or.inr (Or.inl rfl))
  have merged (ctx : Context σ) (given : ctx.bottomup = some (results.map .map)) :
      (Standard.mergeAnalysis.run node ctx).run s = (.ok (.map (merge results).entries), s) := by
    simp only [Standard.run, given, Option.getD_some, mergeResults_map]
    rfl
  have ready : ((Shape.analysis : Shape σ Entries).composite node results).run s =
      (.ok node, s) := rfl
  rw [ascend, Action.run_bind_of_ok ready, fullChain_none, chain]
  exact (Action.run_bind_of_ok (merged _ rfl)).trans rfl

private theorem run_visit (above : t.StandardAbove) {node : Expr}
    (composite : node.kind.isComposite = true) (inherited : Value) {s after : Store σ}
    {results : List Entries}
    (below : (t.visitAll .analysis topdown ((s.stamp? node).getD inherited) (traversed node)).run
      { s with visits := s.visits + 1 } = (.ok results, after)) :
    (t.visit .analysis topdown inherited node).run s = (.ok (merge results).entries, after) := by
  rw [visit_of_composite t .analysis composite,
    Action.run_bind_of_ok (run_scopeAt node inherited s), above.targetOf_eq,
    Action.run_bind_of_ok (Action.run_pure none s),
    Action.run_bind_of_ok (above.run_descend _ node s)]
  exact (Action.run_bind_of_ok below).trans (above.run_ascend composite _ results after)

end StandardAbove

private theorem run_leafResults_of_leaf {leaf : Expr} (simple : leaf.kind.isComposite = false)
    (inherited : Value) {s after : Store σ} {result : Entries}
    (ran : (t.visitLeaf .analysis topdown inherited leaf).run s = (.ok result, after)) :
    (t.leafResults topdown inherited leaf).run s = (.ok [(leaf, result)], after) := by
  cases leaf with
  | atomic | symbol | primitive => rw [leafResults, Action.run_bind_of_ok ran]; rfl
  | call | pairlist => cases simple

def leafResultsOfAll (t : Traversal σ) (topdown inherited : Value) :
    List Expr → Action σ (List (Expr × Entries))
  | [] => pure []
  | node :: rest => do
    let found ← t.leafResults topdown inherited node
    return found ++ (← leafResultsOfAll t topdown inherited rest)

private theorem run_leafResults_of_composite {node : Expr}
    (composite : node.kind.isComposite = true) (inherited : Value) (s : Store σ) :
    (t.leafResults topdown inherited node).run s =
      (t.leafResultsOfAll topdown ((s.stamp? node).getD inherited) (traversed node)).run
        { s with visits := s.visits + 1 } := by
  have ofArgs (scope : Value) (args : List (Option String × Expr)) :
      t.leafResultsOfArgs topdown scope args =
        t.leafResultsOfAll topdown scope (args.map (·.2)) := by
    induction args with
    | nil => rfl
    | cons a rest ih => simp only [leafResultsOfArgs, List.map_cons, leafResultsOfAll, ih]
  have ofParams (scope : Value) (params : List (String × Option Expr)) :
      t.leafResultsOfParams topdown scope params =
        t.leafResultsOfAll topdown scope (Node.defaults params) := by
    induction params with
    | nil => rfl
    | cons p rest ih =>
      obtain ⟨name, d | d⟩ := p
      · exact ih
      · change _ = t.leafResultsOfAll topdown scope (d :: Node.defaults rest)
        simp only [leafResultsOfParams, leafResultsOfAll, ih]
  cases node with
  | atomic | symbol | primitive => cases composite
  | call tag callee args =>
    rw [leafResults, Action.run_bind_of_ok (run_scopeAt _ inherited s),
      Action.run_bind_of_ok (Action.run_newVisit s), ofArgs]
    rfl
  | pairlist tag params =>
    rw [leafResults, Action.run_bind_of_ok (run_scopeAt _ inherited s),
      Action.run_bind_of_ok (Action.run_newVisit s), ofParams]
    rfl

/-- What is claimed of one node: its leaves can be visited, and the results add up. -/
def Gatherable (t : Traversal σ) (topdown : Value) (known : Expr → Entries → Prop)
    (node : Expr) : Prop :=
  ∀ inherited s, ∃ found result after,
    (t.leafResults topdown inherited node).run s = (.ok found, after) ∧
      t.Gathers topdown known inherited [node] s found [result] after ∧
        (node.kind.isComposite = true → result = (merge (found.map Prod.snd)).entries)

private theorem gathers_all {nodes : List Expr} (each : ∀ n ∈ nodes, t.Gatherable topdown known n)
    (inherited : Value) (s : Store σ) : ∃ found results after,
    (t.leafResultsOfAll topdown inherited nodes).run s = (.ok found, after) ∧
      t.Gathers topdown known inherited nodes s found results after := by
  induction nodes generalizing s with
  | nil => exact ⟨[], [], s, rfl, rfl, rfl, by simp, fun _ => rfl⟩
  | cons node rest ih =>
    obtain ⟨found, result, s₁, ran, first, -⟩ := each node List.mem_cons_self inherited s
    obtain ⟨others, results, after, ranRest, later⟩ :=
      ih (fun n h => each n (List.mem_cons_of_mem _ h)) s₁
    refine ⟨found ++ others, result :: results, after, ?_, ?_, ?_, ?_, ?_⟩
    · rw [leafResultsOfAll, Action.run_bind_of_ok ran, Action.run_bind_of_ok ranRest]
      rfl
    · exact run_visitAll_cons first.visit later.visited
    · have own := first.leaves
      rw [List.flatMap_cons, List.flatMap_nil, List.append_nil] at own
      rw [List.map_append, own, later.leaves, List.flatMap_cons]
    · intro p member
      rcases List.mem_append.mp member with own | other
      · exact first.said p own
      · exact later.said p other
    · intro acc
      rw [List.map_append, List.foldl_append, ← first.adds, ← later.adds]
      rfl

private theorem Gatherable.of_composite (above : t.StandardAbove) {node : Expr}
    (composite : node.kind.isComposite = true)
    (each : ∀ n ∈ traversed node, t.Gatherable topdown known n) :
    t.Gatherable topdown known node := by
  intro inherited s
  obtain ⟨found, results, after, ran, below⟩ :=
    gathers_all each ((s.stamp? node).getD inherited) { s with visits := s.visits + 1 }
  have result_eq : (merge results).entries = (merge (found.map Prod.snd)).entries := by
    rw [merge, merge, below.adds]
  refine ⟨found, (merge results).entries, after, ?_, ⟨?_, ?_, below.said, ?_⟩, fun _ => result_eq⟩
  · rw [run_leafResults_of_composite composite, ran]
  · exact run_visitAll_cons (above.run_visit composite inherited below.visited) rfl
  · rw [below.leaves, List.flatMap_cons, List.flatMap_nil, List.append_nil,
      Node.leaves_of_composite composite]
  · intro acc
    rw [List.foldl_cons, List.foldl_nil, result_eq, addEntries_merge]

private theorem Gatherable.of_leaf {leaf : Expr} (simple : leaf.kind.isComposite = false)
    (answers : t.Answers topdown known leaf) : t.Gatherable topdown known leaf := by
  intro inherited s
  obtain ⟨result, after, ran, said⟩ := run_visitLeaf_of_answers answers inherited s
  refine ⟨[(leaf, result)], result, after, run_leafResults_of_leaf simple inherited ran,
    ⟨?_, ?_, by simpa using said, fun _ => rfl⟩, fun composite => ?_⟩
  · rw [← visit_of_leaf t .analysis simple] at ran
    exact run_visitAll_cons ran rfl
  · rw [List.flatMap_cons, List.flatMap_nil, List.append_nil, Node.leaves_of_leaf simple]
    rfl
  · rw [simple] at composite
    cases composite

private theorem gatherable (above : t.StandardAbove) {node : Expr}
    (answers : ∀ leaf ∈ node.leaves, t.Answers topdown known leaf) :
    t.Gatherable topdown known node := by
  have below {node : Expr} (composite : node.kind.isComposite = true) {n : Expr}
      (member : n ∈ traversed node) : n.leaves ⊆ node.leaves := by
    rw [Node.leaves_of_composite composite]
    exact fun leaf listed => List.mem_flatMap.mpr ⟨n, member, listed⟩
  induction node using Node.induction with
  | atomic | symbol | primitive =>
    refine .of_leaf rfl (answers _ ?_)
    rw [Node.leaves_of_leaf rfl]
    exact List.mem_singleton_self _
  | pairlist tag params ih =>
    refine .of_composite above rfl fun n member => ?_
    obtain ⟨p, listed, given⟩ := List.mem_filterMap.mp member
    exact ih p listed n given fun leaf h => answers leaf (below rfl member h)
  | call tag callee args _ ih =>
    refine .of_composite above rfl fun n member => ?_
    have inside := fun leaf h => answers leaf (below rfl member h)
    obtain ⟨a, listed, rfl⟩ := List.mem_map.mp member
    exact ih a listed inside

theorem run_visit_of_answers (above : t.StandardAbove) {root : Expr}
    (composite : root.kind.isComposite = true)
    (answers : ∀ leaf ∈ root.leaves, t.Answers topdown known leaf) (inherited : Value)
    (s : Store σ) : ∃ found after,
    (t.leafResults topdown inherited root).run s = (.ok found, after) ∧
      found.map Prod.fst = root.leaves ∧ (∀ p ∈ found, known p.1 p.2) ∧
        (t.visit .analysis topdown inherited root).run s =
          (.ok (merge (found.map Prod.snd)).entries, after) := by
  obtain ⟨found, result, after, ran, gathers, merges⟩ := gatherable above answers inherited s
  have leaves := gathers.leaves
  rw [List.flatMap_cons, List.flatMap_nil, List.append_nil] at leaves
  refine ⟨found, after, ran, leaves, gathers.said, ?_⟩
  rw [gathers.visit, merges composite]

end Traversal

end TreePass
