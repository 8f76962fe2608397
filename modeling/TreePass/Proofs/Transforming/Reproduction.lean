import TreePass.Proofs.Transforming.Freshness

/-!
The standard transformation reproduces its tree. Leaves are cloned, composites are rebuilt around
the results of their children and callees are cloned, in this order; what comes out is a copy of the
tree, position by position, with the metadata that every position had.
-/

set_option autoImplicit false
set_option relaxedAutoImplicit false

namespace TreePass

variable {σ : Type}

private theorem Config.fullChain_standard {η : Type} (mode : Mode) (slot : Slot)
    (target : Option Identity) :
    (standard mode : Config η).fullChain slot target = [.standard (Standard.ofSlot mode slot)] := by
  cases target with
  | none => rfl
  | some identity => cases slot <;> rfl

namespace Node

theorem Copied.of_frame {s s' : Store σ} (frame : Store.Frame [] s s') : Copied s s' [] [] :=
  ⟨Fresh.nil s s', frame, fun _ => rfl⟩

private theorem Copied.prepend {a b c : Store σ} {olds olds' news news' : List Expr}
    (first : Copied a b olds news) (second : Copied b c olds' news') :
    Copied a c (olds' ++ olds) (news' ++ news) where
  fresh := (first.append second).fresh.perm List.perm_append_comm
  frame := first.frame.trans second.frame
  carries := by
    intro live
    have live' : ∀ n ∈ olds ++ olds', n.tag < a.tables.size := fun n member =>
      live n (List.perm_append_comm.mem_iff.mp member)
    have both := (first.append second).carries live'
    have length : news.length = olds.length := by
      have own := first.carries fun n member => live' n (List.mem_append_left _ member)
      simpa using congrArg List.length own
    rw [List.map_append, List.map_append] at both ⊢
    obtain ⟨early, late⟩ := List.append_inj both (by simpa using length)
    rw [early, late]

end Node

open Node (Copied)

/-- A composite rebuilt around children of the old structure has its old structure; around copies of
its children it is a copy. -/
theorem Shape.rebuild_ends {node : Expr} (composite : node.kind.isComposite = true)
    {results : List Expr} (same : results.map Node.bare = (Traversal.traversed node).map Node.bare)
    (s : Store σ) :
    (rebuild node results).Ends s fun made s' =>
      made.bare = node.bare ∧ ∀ a, Copied a s ((Traversal.traversed node).flatMap Node.nodes)
        (results.flatMap Node.nodes) → Copied a s' node.nodes made.nodes := by
  have length : results.length = (Traversal.traversed node).length := by
    simpa using congrArg List.length same
  cases node with
  | atomic | symbol | primitive => cases composite
  | pairlist tag params =>
    have fits : results.length = (Node.pairlist tag params).children.length := length
    refine .of_run (Node.run_withChildren_of_fits fits s) ⟨?_, fun a copied => ?_⟩
    · exact Node.bare_refill_of_map_bare_eq _ same
    · rw [Node.nodes_refill _ fits, Node.nodes_eq]
      exact copied.cons_push (.pairlist tag params) _ (Node.tag_refill _ _ _)
  | call tag callee args =>
    refine Action.Ends.bind (callee.clone_ends s) ?_
    rintro copy s₁ ⟨bareCallee, copiedCallee⟩
    have fits : (copy :: results).length = (Node.call tag callee args).children.length :=
      congrArg Nat.succ length
    refine .of_run (Node.run_withChildren_of_fits fits s₁) ⟨?_, fun a copied => ?_⟩
    · refine Node.bare_refill_of_map_bare_eq _ ?_
      rw [List.map_cons, bareCallee, same]
      rfl
    · -- The children were copied before the callee, which stands in front of them.
      have below := copied.prepend copiedCallee
      rw [Node.nodes_refill _ fits, Node.nodes_eq]
      exact below.cons_push (.call tag callee args) _ (Node.tag_refill _ _ _)

namespace Traversal

variable {t : Traversal σ}

private theorem run_invoke_standard (standard : t.config = .standard .transform) (ctx : Context σ)
    {slot : Slot} (kind : slot ≠ .topdown) (target : Option Identity) (made : Expr) (s : Store σ) :
    (invoke ctx (t.config.fullChain slot target) made).run s = (.ok (.node made), s) := by
  rw [standard, Config.fullChain_standard]
  cases slot with
  | topdown => exact absurd rfl kind
  | atomic | symbol | primitive | pairlist | call => rfl

theorem run_finish_made (slot : Slot) (kind : Kind) (made : Expr) (s : Store σ) :
    (t.finish .transforming slot kind (some made) (.node made)).run s = (.ok made, s) := by
  have same : made.same made = true := by simp [Node.same]
  simp only [finish, Shape.transforming, Value.node?, Option.map_some, same, ↓reduceIte]
  rfl

private theorem run_descend_standard (standard : t.config = .standard .transform)
    (target : Option Identity) (topdown scope : Value) (node : Expr) (s : Store σ) :
    (t.descend target topdown scope node).run s =
      (.ok (.done topdown), { s with visits := s.visits + 1 }) := by
  rw [descend, Action.run_bind_of_ok (Action.run_newVisit s), standard, Config.fullChain_standard]
  rfl

theorem ofKind_ne_topdown (kind : Kind) : Slot.ofKind kind ≠ .topdown := by
  cases kind <;> decide

private theorem visitLeaf_copies (standard : t.config = .standard .transform) (node : Expr)
    (topdown inherited : Value) (s : Store σ) :
    (t.visitLeaf .transforming topdown inherited node).Ends s fun out s' =>
      out.bare = node.bare ∧ Copied s s' node.nodes out.nodes := by
  refine Action.ends_bind_of_run (run_scopeAt node inherited s) ?_
  refine Action.Ends.bind (node.clone_ends s) ?_
  intro made s₁ copied
  have called := run_invoke_standard standard
    (t.context topdown ((s.stamp? node).getD inherited) none none) (ofKind_ne_topdown node.kind)
    none made s₁
  exact Action.ends_bind_of_run called (.of_run (run_finish_made _ _ made s₁) copied)

private theorem visitAll_copies {nodes : List Expr} (topdown inherited : Value)
    (each : ∀ n ∈ nodes, ∀ s : Store σ, (t.visit .transforming topdown inherited n).Ends s
      fun out s' => out.bare = n.bare ∧ Copied s s' n.nodes out.nodes) (s : Store σ) :
    (t.visitAll .transforming topdown inherited nodes).Ends s fun results s' =>
      results.map Node.bare = nodes.map Node.bare ∧
        Copied s s' (nodes.flatMap Node.nodes) (results.flatMap Node.nodes) := by
  induction nodes generalizing s with
  | nil => exact Action.ends_pure ⟨rfl, Copied.nil s⟩
  | cons node rest ih =>
    refine Action.Ends.bind (each node List.mem_cons_self s) ?_
    rintro out s₁ ⟨bare, copied⟩
    refine Action.Ends.bind (ih (fun n h => each n (List.mem_cons_of_mem _ h)) s₁) ?_
    rintro outs s₂ ⟨bares, copies⟩
    refine Action.ends_pure ⟨?_, copied.append copies⟩
    rw [List.map_cons, bare, bares, List.map_cons]

private theorem composite_copies (standard : t.config = .standard .transform) {node : Expr}
    (composite : node.kind.isComposite = true)
    (each : ∀ n ∈ traversed node, ∀ (topdown inherited : Value) (s : Store σ),
      (t.visit .transforming topdown inherited n).Ends s fun out s' =>
        out.bare = n.bare ∧ Copied s s' n.nodes out.nodes)
    (topdown inherited : Value) (s : Store σ) :
    (t.visit .transforming topdown inherited node).Ends s fun out s' =>
      out.bare = node.bare ∧ Copied s s' node.nodes out.nodes := by
  have noTargets : t.config.hasTargets = false := by rw [standard]; rfl
  have untargeted (scope : Value) : t.targetOf node scope = pure none := by
    cases node with
    | call tag callee args => exact t.resolve_of_no_targets noTargets callee scope
    | atomic | symbol | primitive | pairlist => rfl
  rw [visit_of_composite t .transforming composite]
  refine Action.ends_bind_of_run (run_scopeAt node inherited s) ?_
  rw [untargeted]
  refine Action.ends_bind_of_run (Action.run_pure none s) ?_
  refine Action.ends_bind_of_run (run_descend_standard standard none topdown _ node s) ?_
  refine Action.Ends.bind (visitAll_copies topdown _ (fun n member => each n member _ _) _) ?_
  rintro results s₁ ⟨same, below⟩
  -- Entering the node only counted a visit.
  have entered : Store.Frame [] s { s with visits := s.visits + 1 } :=
    Store.frame_of_tables_eq rfl rfl rfl
  have copied := (Copied.of_frame entered).append below
  refine Action.Ends.bind (Shape.rebuild_ends composite same s₁) ?_
  rintro made s₂ ⟨bare, rebuilt⟩
  have called := run_invoke_standard standard
    (t.context topdown ((s.stamp? node).getD inherited) none none) (ofKind_ne_topdown node.kind)
    none made s₂
  exact Action.ends_bind_of_run called
    (.of_run (run_finish_made _ _ made s₂) ⟨bare, rebuilt s copied⟩)

theorem visit_copies (standard : t.config = .standard .transform) (node : Expr)
    (topdown inherited : Value) (s : Store σ) :
    (t.visit .transforming topdown inherited node).Ends s fun out s' =>
      out.bare = node.bare ∧ Copied s s' node.nodes out.nodes := by
  induction node using Node.induction generalizing topdown inherited s with
  | atomic | symbol | primitive =>
    rw [visit_of_leaf t .transforming rfl]
    exact visitLeaf_copies standard _ topdown inherited s
  | pairlist tag params ih =>
    refine composite_copies standard rfl (fun n member => ?_) topdown inherited s
    obtain ⟨p, listed, given⟩ := List.mem_filterMap.mp member
    exact ih p listed n given
  -- The callee is cloned and not visited, so nothing is needed of it.
  | call tag callee args _ ih =>
    refine composite_copies standard rfl (fun n member => ?_) topdown inherited s
    obtain ⟨a, listed, rfl⟩ := List.mem_map.mp member
    exact ih a listed

end Traversal

/-- A tree that reproduces another: the same structure and, position by position, an equal metadata
table. Every position has a node of its own that did not exist before, and whatever is done later to
the table of one of them, all tables that existed are as they were. -/
structure Reproduced (expr : Expr) (before : Store σ) (out : Expr) (after : Store σ) : Prop where
  structure_eq : out.bare = expr.bare
  metadata : out.nodes.map (fun n => after.table n.tag) =
    expr.nodes.map fun n => before.table n.tag
  unshared : before.Unshared out.nodes
  independent : ∀ n ∈ out.nodes, ∀ change : Table → Table, ∀ tag < before.tables.size,
    (after.update n.tag change).table tag = before.table tag

private theorem Node.Copied.reproduced {expr out : Expr} {s s' : Store σ} (known : s.Knows expr)
    (bare : out.bare = expr.bare) (copied : Copied s s' expr.nodes out.nodes) :
    Reproduced expr s out s' where
  structure_eq := bare
  metadata := copied.carries known
  unshared := copied.fresh.unshared
  independent := by
    intro n member change tag old
    have other : tag ≠ n.tag := Nat.ne_of_lt (Nat.lt_of_lt_of_le old (copied.fresh.new n member).1)
    rw [Store.table_update_of_ne _ _ other, copied.frame.table tag old List.not_mem_nil]

/-- The standard transformation reproduces every tree, whatever its nodes carry, in every
environment, with all flags and parameters, from every topdown value and in every scope: as a
traversal, and as a pass over an expression. -/
theorem standard_transformation_reproduces (flags : Flags) (env : Option Environment)
    (params : Table) (topdown : Value) (expr : Expr) (s : Store σ) (known : s.Knows expr) :
    (∀ scope : Scope, ((⟨.standard .transform, flags, env, params⟩ : Traversal σ).transform
      topdown scope expr).Ends s (Reproduced expr s)) ∧
    (({ config := .standard .transform, flags, topdown, params } : Pass σ).transformExpr
      env expr).Ends s (Reproduced expr s) := by
  have copies (scope : Scope) : ((⟨.standard .transform, flags, env, params⟩ :
      Traversal σ).transform topdown scope expr).Ends s (Reproduced expr s) := by
    refine (Traversal.visit_copies rfl expr _ _ s).mono ?_
    rintro out s' ⟨bare, copied⟩
    exact copied.reproduced known bare
  refine ⟨copies, ?_⟩
  exact Action.ends_bind_of_run (Action.run_pure () s) (copies Scope.empty)

/-- A function literal with the parameters `a`, `b = y`, `c` and `d = 1` and the body `g(k = x)`,
called on `z`. -/
def calledLiteral : Expr :=
  .call 0
    (.call 1 (.symbol 2 "function")
      [(none, .pairlist 3 [("a", none), ("b", some (.symbol 4 "y")), ("c", none),
        ("d", some (.atomic 5 (.int 1)))]),
      (none, .call 6 (.symbol 7 "g") [(some "k", .symbol 8 "x")])])
    [(none, .symbol 9 "z")]

/-- Ten nodes, each with its own note, and with something else in the place of the stamp. -/
def notedNodes : Store Unit :=
  { Store.initial () with
    tables := ((List.range 10).map fun (i : Nat) =>
      [("note", .int i), ("scope", .str "none")]).toArray }

/-- The copy has the ten notes at the ten positions, the callee's included. -/
theorem standard_transformation_reproduces_calledLiteral :
    notedNodes.Knows calledLiteral ∧
    (({ config := .standard .transform } : Pass Unit).transformExpr none calledLiteral).Ends
      notedNodes fun out after =>
        Reproduced calledLiteral notedNodes out after ∧
        out.nodes.map (fun n => after.table n.tag) =
          (List.range 10).map fun (i : Nat) => [("note", .int i), ("scope", .str "none")] := by
  have known : notedNodes.Knows calledLiteral := by
    intro m below
    have bounded : ∀ tag ∈ calledLiteral.nodes.map Node.tag, tag < 10 := by decide
    exact bounded m.tag (List.mem_map_of_mem below)
  refine ⟨known, ?_⟩
  refine (standard_transformation_reproduces {} none [] .none calledLiteral notedNodes
    known).2.mono ?_
  intro out after reproduced
  refine ⟨reproduced, ?_⟩
  rw [reproduced.metadata]
  rfl

end TreePass
