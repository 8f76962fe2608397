import TreePass.Proofs.Ordering.Sequence

/-!
What the order of handler calls comes to over a whole run: the way down meets calls and parameter
lists in preorder, the chains of the shapes meet all nodes in postorder, each of them once, and no
handler is called for a node that stands in a callee.
-/

set_option autoImplicit false
set_option relaxedAutoImplicit false

namespace TreePass

variable {ι σ ρ : Type}

namespace Node

mutual

/-- The nodes that arguments and defaults lead to, each after the ones below it. -/
def postorder : Node Value → List Expr
  | .call tag callee args => postorderOfArgs args ++ [.call tag callee args]
  | .pairlist tag params => postorderOfParams params ++ [.pairlist tag params]
  | .atomic tag value => [.atomic tag value]
  | .symbol tag name => [.symbol tag name]
  | .primitive tag ref => [.primitive tag ref]

def postorderOfArgs : List (Option String × Node Value) → List Expr
  | [] => []
  | (_, a) :: rest => postorder a ++ postorderOfArgs rest

def postorderOfParams : List (String × Option (Node Value)) → List Expr
  | [] => []
  | (_, none) :: rest => postorderOfParams rest
  | (_, some d) :: rest => postorder d ++ postorderOfParams rest

end

private theorem postorder_of_leaf {node : Expr} (simple : node.kind.isComposite = false) :
    node.postorder = [node] := by
  cases node with
  | atomic | symbol | primitive => rfl
  | call | pairlist => cases simple

private theorem postorder_of_composite {node : Expr} (composite : node.kind.isComposite = true) :
    node.postorder = (Traversal.traversed node).flatMap postorder ++ [node] := by
  have ofArgs (args : List (Option String × Expr)) :
      postorderOfArgs args = (args.map (·.2)).flatMap postorder := by
    induction args with
    | nil => rfl
    | cons a rest ih => rw [postorderOfArgs, ih, List.map_cons, List.flatMap_cons]
  have ofParams (params : List (String × Option Expr)) :
      postorderOfParams params = (defaults params).flatMap postorder := by
    induction params with
    | nil => rfl
    | cons p rest ih =>
      obtain ⟨name, d | d⟩ := p
      · exact ih
      · rw [postorderOfParams, ih]
        rfl
  cases node with
  | atomic | symbol | primitive => cases composite
  | call tag callee args => rw [postorder, ofArgs]; rfl
  | pairlist tag params => rw [postorder, ofParams]; rfl

end Node

/-- The nodes that a log shows standard handlers were given, of those handlers that pass a test. -/
def standardCalls (test : Standard → Bool) (events : List (Link ι × Expr)) : List Expr :=
  events.filterMap fun e =>
    match e.1 with
    | .standard handler => if test handler then some e.2 else none
    | .installed _ => none

def Standard.isTopdown (handler : Standard) : Bool := handler == .passTopdown

private theorem standardCalls_append (test : Standard → Bool)
    (events later : List (Link ι × Expr)) :
    standardCalls test (events ++ later) = standardCalls test events ++ standardCalls test later :=
  List.filterMap_append

private theorem standardCalls_chain (test : Standard → Bool) (labels : List ι) (standard : Standard)
    (node : Expr) :
    standardCalls test ((labels.map Link.installed ++ [Link.standard standard]).map (·, node)) =
      if test standard then [node] else [] := by
  have silent : standardCalls test ((labels.map Link.installed).map (·, node)) = [] := by
    rw [standardCalls, List.filterMap_eq_nil_iff]
    intro e member
    obtain ⟨link, listed, rfl⟩ := List.mem_map.mp member
    obtain ⟨label, -, rfl⟩ := List.mem_map.mp listed
    rfl
  rw [List.map_append, standardCalls_append, silent, List.nil_append]
  cases passes : test standard with
  | true => simp [standardCalls, passes]
  | false => simp [standardCalls, passes]

namespace RelaySetup

open Traversal

variable {setup : RelaySetup ι σ}

private theorem standardCalls_generic (test : Standard → Bool) (slot : Slot) (node : Expr) :
    standardCalls test ((genericChain setup.mode setup.labels slot).map (·, node)) =
      if test (Standard.ofSlot setup.mode slot) then [node] else [] :=
  standardCalls_chain test _ _ node

private theorem standardCalls_chainAt (test : Standard → Bool) (slot : Slot) (scope : Value)
    (at_ node : Expr) :
    standardCalls test ((setup.chainAt slot scope at_).map (·, node)) =
      if test (Standard.ofSlot setup.mode slot) then [node] else [] := by
  have whole : ∃ labels : List ι, setup.chainAt slot scope at_ =
      labels.map Link.installed ++ [Link.standard (Standard.ofSlot setup.mode slot)] := by
    rw [chainAt, genericChain]
    cases setup.plain.aim scope at_ with
    | none => exact ⟨_, rfl⟩
    | some identity =>
      refine ⟨setup.labels.filterMap (Install.forTarget? slot identity) ++
        setup.labels.filterMap (Install.forSlot? slot), ?_⟩
      rw [List.map_append, List.append_assoc]
      rfl
  obtain ⟨labels, same⟩ := whole
  rw [same, standardCalls_chain]

private theorem isTopdown_ofSlot (mode : Mode) (kind : Kind) :
    (Standard.ofSlot mode (Slot.ofKind kind)).isTopdown = false := by
  cases mode <;> cases kind <;> rfl

private theorem isTopdown_topdown (mode : Mode) : (Standard.ofSlot mode .topdown).isTopdown =
    true := by
  cases mode <;> rfl

variable {nodes : List Expr} {visits : List (Expr × Value)} {events : List (Link ι × Expr)}

/-- The way down meets the visited calls and parameter lists in their order. -/
theorem InOrder.topdown (ordered : setup.InOrder nodes visits events) :
    standardCalls Standard.isTopdown events = visits.map Prod.fst := by
  induction ordered with
  | nil => rfl
  | leaf _ _ _ ih =>
    rw [standardCalls_append, standardCalls_generic, isTopdown_ofSlot, ih]
    rfl
  | composite _ _ _ _ ihBelow ih =>
    rw [standardCalls_append, standardCalls_append, standardCalls_append, standardCalls_chainAt,
      standardCalls_chainAt, isTopdown_ofSlot, isTopdown_topdown, ihBelow, ih, List.map_cons,
      List.map_append]
    simp

/-- The chains of the shapes meet every node once, after the nodes below it. -/
theorem InOrder.kinds (ordered : setup.InOrder nodes visits events) :
    List.Forall₂ setup.mode.Stands (nodes.flatMap Node.postorder)
      (standardCalls (fun handler => !handler.isTopdown) events) := by
  induction ordered with
  | nil => exact .nil
  | leaf simple stands _ ih =>
    rw [standardCalls_append, standardCalls_generic, isTopdown_ofSlot, List.flatMap_cons,
      Node.postorder_of_leaf simple]
    exact .cons stands ih
  | composite composite stands _ _ ihBelow ih =>
    rw [standardCalls_append, standardCalls_append, standardCalls_append, standardCalls_chainAt,
      standardCalls_chainAt, isTopdown_ofSlot, isTopdown_topdown, List.flatMap_cons,
      Node.postorder_of_composite composite]
    exact List.rel_append (List.rel_append ihBelow (.cons stands .nil)) ih

theorem InOrder.only (ordered : setup.InOrder nodes visits events) :
    ∀ e ∈ events, ∃ n ∈ nodes.flatMap Node.postorder, e.2 = n ∨ setup.mode.Stands n e.2 := by
  have ofChain {chain : List (Link ι)} {node : Expr} {e : Link ι × Expr}
      (member : e ∈ chain.map (·, node)) : e.2 = node := by
    obtain ⟨link, -, rfl⟩ := List.mem_map.mp member
    rfl
  induction ordered with
  | nil => simp
  | @leaf node given rest _ _ simple stands _ ih =>
    intro e member
    have here : node ∈ (node :: rest).flatMap Node.postorder := by
      rw [List.flatMap_cons, Node.postorder_of_leaf simple]
      exact List.mem_cons_self
    rcases List.mem_append.mp member with own | other
    · exact ⟨node, here, Or.inr (ofChain own ▸ stands)⟩
    · obtain ⟨n, listed, given⟩ := ih e other
      exact ⟨n, List.mem_append_right _ listed, given⟩
  | @composite node given scope rest _ _ inside _ composite stands _ _ ihBelow ih =>
    have all : (node :: rest).flatMap Node.postorder =
        ((traversed node).flatMap Node.postorder ++ [node]) ++ rest.flatMap Node.postorder := by
      rw [List.flatMap_cons, Node.postorder_of_composite composite]
    have here : node ∈ (node :: rest).flatMap Node.postorder := by
      rw [all]
      simp
    intro e member
    rcases List.mem_append.mp member with first | other
    · rcases List.mem_append.mp first with first | up
      · rcases List.mem_append.mp first with down | below
        · exact ⟨node, here, Or.inl (ofChain down)⟩
        · obtain ⟨n, listed, given⟩ := ihBelow e below
          refine ⟨n, ?_, given⟩
          rw [all]
          exact List.mem_append_left _ (List.mem_append_left _ listed)
      · exact ⟨node, here, Or.inr (ofChain up ▸ stands)⟩
    · obtain ⟨n, listed, given⟩ := ih e other
      exact ⟨n, List.mem_append_right _ listed, given⟩

variable (setup)

/-- The runs of a traversal over a tree, and of the traversal that records. Recording changes
nothing but the log. What a run that ends with a result adds to the log is in order, for the visits
that it made; so the way down meets the calls and parameter lists of the tree in preorder, the
chains of the shapes meet its nodes in postorder, each of them once, and handlers are called for no
other nodes. -/
structure Orderly (shape : Shape (Recorded ι σ) ρ) (shape' : Shape σ ρ)
    (topdown inherited : Value) (root : Expr) (s : Store (Recorded ι σ)) : Prop where
  unchanged : (setup.plain.traversal.visit shape' topdown inherited root).run s.forget =
    (((setup.recording.traversal.visit shape topdown inherited root).run s).1,
      ((setup.recording.traversal.visit shape topdown inherited root).run s).2.forget)
  ordered : ∀ result after,
    (setup.recording.traversal.visit shape topdown inherited root).run s = (.ok result, after) →
      ∃ trace events,
        setup.recording.traversal.Traced shape topdown inherited [root] s trace [result] after ∧
        after.user.log = s.user.log ++ events ∧
        setup.InOrder [root] (trace.map fun v => (v.node, v.scope)) events ∧
        standardCalls Standard.isTopdown events = (root.inForce s inherited).map Prod.fst ∧
        List.Forall₂ setup.mode.Stands root.postorder
          (standardCalls (fun handler => !handler.isTopdown) events) ∧
        ∀ e ∈ events, ∃ n ∈ root.postorder, e.2 = n ∨ setup.mode.Stands n e.2

variable {setup} {shape : Shape (Recorded ι σ) ρ} {shape' : Shape σ ρ}

private theorem complete_of_traced (steady : setup.Steady) {topdown inherited : Value}
    {nodes : List Expr} {s after : Store (Recorded ι σ)} {trace : List (Visit (Recorded ι σ))}
    {results : List ρ}
    (traced : setup.recording.traversal.Traced shape topdown inherited nodes s trace results
      after) :
    ∀ v ∈ trace, v.up.isSome = true := by
  induction traced with
  | nil => simp
  | leaf _ _ _ ih => exact ih
  | skipped _ _ _ down _ _ _ => exact absurd down fun ran => descend_not_skipped steady ran
  | done _ _ _ _ _ _ _ ihBelow ih =>
    intro v member
    rcases List.mem_cons.mp member with rfl | member
    · rfl
    · rcases List.mem_append.mp member with inside | later
      · exact ihBelow v inside
      · exact ih v later

private theorem orderly (steady : setup.Steady) (readies : shape.Readies setup.mode)
    (mirrors : shape.Mirrors shape') (topdown inherited : Value) (root : Expr)
    (s : Store (Recorded ι σ)) : setup.Orderly shape shape' topdown inherited root s where
  unchanged := setup.visit_mirrors mirrors root topdown inherited s
  ordered result after ran := by
    obtain ⟨trace, traced⟩ := traced_of_visit ran
    obtain ⟨events, logged, ordered⟩ := inOrder_of_traced steady readies traced
    have preorder := Setup.nodes_of_traced traced (complete_of_traced steady traced) s inherited
    have kinds := ordered.kinds
    have only := ordered.only
    simp only [List.flatMap_cons, List.flatMap_nil, List.append_nil] at preorder kinds only
    refine ⟨trace, events, traced, logged, ordered, ?_, kinds, only⟩
    rw [ordered.topdown, ← preorder, List.map_map]
    rfl

/-- Handlers that hand their node on exactly once and neither skip nor fail run in order, whatever
the tree, the mode and the history of the configuration. -/
theorem handlers_run_in_order (setup : RelaySetup ι σ) (steady : setup.Steady)
    (topdown inherited : Value) (root : Expr) (s : Store (Recorded ι σ)) :
    (setup.mode = .analyse →
      setup.Orderly .analysis .analysis topdown inherited root s) ∧
    (setup.mode = .transform →
      setup.Orderly .transforming .transforming topdown inherited root s) := by
  constructor
  · intro analyses
    have readies : (Shape.analysis : Shape (Recorded ι σ) Entries).Readies setup.mode :=
      analyses ▸ Shape.analysis_readies
    exact orderly steady readies Shape.analysis_mirrors topdown inherited root s
  · intro transforms
    have readies : (Shape.transforming : Shape (Recorded ι σ) Expr).Readies setup.mode :=
      transforms ▸ Shape.transforming_readies
    exact orderly steady readies Shape.transforming_mirrors topdown inherited root s

def passOn : Relay Unit := fun _ _ => pure fun value => pure value

/-- A transformation with two handlers for all calls, one for calls to the object that `f` names,
one for the way down into these calls and one for variables. -/
def fiveHandlers : RelaySetup String Unit where
  mode := .transform
  installs := [.topdown (.named "f") ("into f", passOn), .handler .call ("newer", passOn),
    .call (.named "f") ("at f", passOn), .handler .call ("older", passOn),
    .handler .symbol ("symbol", passOn)]
  flags := {}
  env := some [("f", .named "f")]
  params := []

/-- The calls of handlers for `f(x)`. -/
theorem handlers_run_in_order_fiveHandlers :
    fiveHandlers.Steady ∧ ∃ result after trace,
      (fiveHandlers.recording.traversal.visit .transforming (.map []) (.scope Scope.empty)
        (.call 0 (.symbol 1 "f") [(none, .symbol 2 "x")])).run
          ((Store.initial ()).withLog []) = (.ok result, after) ∧
      fiveHandlers.InOrder [.call 0 (.symbol 1 "f") [(none, .symbol 2 "x")]] trace
        after.user.log ∧
      after.user.log.map (fun e => (e.1, e.2.kind)) =
        [(.installed "into f", .call), (.standard .passTopdown, .call),
          (.installed "symbol", .symbol), (.standard .keepNode, .symbol),
          (.installed "at f", .call), (.installed "newer", .call), (.installed "older", .call),
          (.standard .keepNode, .call)] := by
  have steady : fiveHandlers.Steady := by
    have pass : Relay.Steady passOn := fun _ _ s =>
      .of_run rfl fun value s' => .of_run rfl trivial
    intro i given
    simp only [fiveHandlers, List.mem_cons, List.not_mem_nil, or_false] at given
    rcases given with rfl | rfl | rfl | rfl | rfl <;> exact pass
  have orderly := (handlers_run_in_order fiveHandlers steady (.map []) (.scope Scope.empty)
    (.call 0 (.symbol 1 "f") [(none, .symbol 2 "x")]) ((Store.initial ()).withLog [])).2 rfl
  obtain ⟨trace, events, -, logged, ordered, -⟩ := orderly.ordered _ _ rfl
  refine ⟨steady, _, _, trace.map fun v => (v.node, v.scope), rfl, ?_, rfl⟩
  have all : events = _ := logged.symm
  exact all ▸ ordered

end RelaySetup

end TreePass
