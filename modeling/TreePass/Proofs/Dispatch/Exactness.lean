import TreePass.Proofs.Dispatch.Calm
import TreePass.Proofs.Dispatch.Resolution
import TreePass.Proofs.Dispatch.Tracing

/-!
Dispatch is exact over whole runs. At every visit the chains are the handlers of the object the call
is aimed at in front of the handlers of the slot, and the warnings are the ones due there. Where
nothing is skipped the visits are all calls and parameter lists that arguments and defaults lead to,
in preorder; where handlers are calm, the scopes in force and with them all warnings of the run can
be told from the stamps before it.
-/

set_option autoImplicit false
set_option relaxedAutoImplicit false

namespace TreePass

variable {σ ρ : Type}

namespace Node

mutual

/-- The calls and parameter lists that arguments and defaults lead to, in preorder, each with the
scope in force: its own stamp, or else what is in force above it. -/
def inForce (s : Store σ) (inherited : Value) : Node Value → List (Expr × Value)
  | .call tag callee args =>
    (.call tag callee args, (s.stamp? (.call tag callee args)).getD inherited) ::
      inForceArgs s ((s.stamp? (.call tag callee args)).getD inherited) args
  | .pairlist tag params =>
    (.pairlist tag params, (s.stamp? (.pairlist tag params)).getD inherited) ::
      inForceParams s ((s.stamp? (.pairlist tag params)).getD inherited) params
  | .atomic _ _ | .symbol _ _ | .primitive _ _ => []

def inForceArgs (s : Store σ) (inherited : Value) :
    List (Option String × Node Value) → List (Expr × Value)
  | [] => []
  | (_, a) :: rest => inForce s inherited a ++ inForceArgs s inherited rest

def inForceParams (s : Store σ) (inherited : Value) :
    List (String × Option (Node Value)) → List (Expr × Value)
  | [] => []
  | (_, none) :: rest => inForceParams s inherited rest
  | (_, some d) :: rest => inForce s inherited d ++ inForceParams s inherited rest

end

private theorem inForce_of_leaf {node : Expr} (simple : node.kind.isComposite = false) (s : Store σ)
    (inherited : Value) : node.inForce s inherited = [] := by
  cases node with
  | atomic | symbol | primitive => rfl
  | call | pairlist => cases simple

private theorem inForce_of_composite {node : Expr} (composite : node.kind.isComposite = true)
    (s : Store σ) (inherited : Value) :
    node.inForce s inherited = (node, (s.stamp? node).getD inherited) ::
      (Traversal.traversed node).flatMap fun n =>
        n.inForce s ((s.stamp? node).getD inherited) := by
  have ofArgs (scope : Value) (args : List (Option String × Expr)) :
      inForceArgs s scope args = (args.map (·.2)).flatMap fun n => n.inForce s scope := by
    induction args with
    | nil => rfl
    | cons a rest ih => rw [inForceArgs, ih, List.map_cons, List.flatMap_cons]
  have ofParams (scope : Value) (params : List (String × Option Expr)) :
      inForceParams s scope params = (defaults params).flatMap fun n => n.inForce s scope := by
    induction params with
    | nil => rfl
    | cons p rest ih =>
      obtain ⟨name, d | d⟩ := p
      · exact ih
      · rw [inForceParams, ih]
        rfl
  cases node with
  | atomic | symbol | primitive => cases composite
  | call tag callee args => rw [inForce, ofArgs]; rfl
  | pairlist tag params => rw [inForce, ofParams]; rfl

theorem nodes_of_traversed {node n : Expr} (member : n ∈ Traversal.traversed node) :
    n.nodes ⊆ node.nodes := by
  cases node with
  | atomic | symbol | primitive => cases member
  | call tag callee args =>
    obtain ⟨a, listed, rfl⟩ := List.mem_map.mp member
    exact arg_mem_nodes tag callee listed
  | pairlist tag params =>
    obtain ⟨p, listed, given⟩ := List.mem_filterMap.mp member
    intro m below
    simp only [nodes, List.mem_cons, mem_nodesOfParams]
    exact Or.inr ⟨p, listed, n, given, below⟩

private theorem inForce_congr {s s' : Store σ} {node : Expr}
    (same : ∀ m ∈ node.nodes, s'.stamp? m = s.stamp? m) (inherited : Value) :
    node.inForce s' inherited = node.inForce s inherited := by
  have step {node : Expr} (composite : node.kind.isComposite = true)
      (same : ∀ m ∈ node.nodes, s'.stamp? m = s.stamp? m)
      (each : ∀ n ∈ Traversal.traversed node, (∀ m ∈ n.nodes, s'.stamp? m = s.stamp? m) →
        ∀ inherited, n.inForce s' inherited = n.inForce s inherited) (inherited : Value) :
      node.inForce s' inherited = node.inForce s inherited := by
    rw [inForce_of_composite composite, inForce_of_composite composite,
      same node node.self_mem_nodes]
    congr 1
    exact List.flatMap_congr fun n member =>
      each n member (fun m h => same m (nodes_of_traversed member h)) _
  induction node using Node.induction generalizing inherited with
  | atomic | symbol | primitive => rfl
  | pairlist tag params ih =>
    refine step rfl same (fun n member => ?_) inherited
    obtain ⟨p, listed, given⟩ := List.mem_filterMap.mp member
    exact ih p listed n given
  | call tag callee args _ ih =>
    refine step rfl same (fun n member => ?_) inherited
    obtain ⟨a, listed, rfl⟩ := List.mem_map.mp member
    exact ih a listed

end Node

/-- All nodes of a tree exist in the store. -/
def Store.Knows (s : Store σ) (node : Expr) : Prop := ∀ m ∈ node.nodes, m.tag < s.tables.size

private theorem Store.Calm.inForce_eq {said : List Warning} {s s' : Store σ}
    (calm : Store.Calm said s s')
    {nodes : List Expr} (known : ∀ n ∈ nodes, s.Knows n) (inherited : Value) :
    (nodes.flatMap fun n => n.inForce s' inherited) =
      nodes.flatMap fun n => n.inForce s inherited :=
  List.flatMap_congr fun n member =>
    Node.inForce_congr (fun m below => calm.stamps m (known n member m below)) inherited

private theorem Store.Calm.knows {said : List Warning} {s s' : Store σ}
    (calm : Store.Calm said s s')
    {node : Expr} (known : s.Knows node) : s'.Knows node := fun m below =>
  Nat.lt_of_lt_of_le (known m below) calm.size

namespace Setup

variable (setup : Setup σ)

/-- The chain that a slot has for a node: the handlers of the object the node is aimed at, if any,
in front of the handlers of the slot. -/
def chainAt (slot : Slot) (scope : Value) (node : Expr) : List (Link (Handler σ)) :=
  targetHandlers setup.installs slot (setup.aim scope node) ++
    genericChain setup.mode setup.installs slot

/-- A visit at which the right chains ran and the right warning was recorded. -/
structure Exact (v : Visit σ) : Prop where
  down : v.down = setup.chainAt .topdown v.scope v.node
  up : ∀ chain ∈ v.up, chain = setup.chainAt (Slot.ofKind v.node.kind) v.scope v.node
  warned : v.warned = (setup.diagnosis v.scope v.node).toList

def Calm : Prop := ∀ i ∈ setup.installs, Handler.Calm i.added

variable {setup}

private theorem Resolved.fullChain_eq {scope : Value} {node : Expr} {s s' : Store σ}
    {target : Option Identity} (resolved : setup.Resolved scope node s target s') (slot : Slot) :
    setup.traversal.config.fullChain slot target = setup.chainAt slot scope node := by
  rw [resolved.target, chainAt, traversal, Config.built_fullChain]
  congr 1
  cases setup.aim scope node with
  | none => rfl
  | some identity =>
    rw [Option.filter]
    cases installed : isTargeted setup.installs identity with
    | true => rfl
    | false => exact (Config.targetHandlers_eq_nil setup.installs slot installed).symm

private theorem Resolved.recorded_eq {scope : Value} {node : Expr} {s s' : Store σ}
    {target : Option Identity} (resolved : setup.Resolved scope node s target s') :
    s.recorded s' = (setup.diagnosis scope node).toList := by
  rw [Store.recorded, resolved.warnings]
  cases setup.diagnosis scope node <;> simp

theorem Resolved.calm {scope : Value} {node : Expr} {s s' : Store σ}
    {target : Option Identity} (resolved : setup.Resolved scope node s target s') :
    Store.Calm (s.recorded s') s s' where
  size := Nat.le_of_eq (by rw [resolved.tables])
  stamps n _ := Store.stamp?_of_table_eq (Store.table_of_tables_eq resolved.tables n.tag)
  warnings := by
    rw [resolved.recorded_eq, resolved.warnings]
    cases setup.diagnosis scope node <;> simp

theorem targetOf_resolved {node : Expr} (composite : node.kind.isComposite = true)
    {scope : Value} {s s' : Store σ} {target : Option Identity}
    (found : (setup.traversal.targetOf node scope).run s = (.ok target, s')) :
    setup.Resolved scope node s target s' := by
  cases node with
  | atomic | symbol | primitive => cases composite
  | call tag callee args => exact resolve_resolved found
  | pairlist tag params =>
    obtain ⟨rfl, rfl⟩ := Action.ok_inj found
    exact ⟨rfl, by simp [diagnosis], rfl⟩

variable {shape : Shape σ ρ} {topdown inherited : Value} {nodes : List Expr} {s after : Store σ}
  {log : List (Visit σ)} {results : List ρ}

private theorem exact_of_traced
    (traced : setup.traversal.Traced shape topdown inherited nodes s log results after) :
    ∀ v ∈ log, setup.Exact v := by
  induction traced with
  | nil => simp
  | leaf _ _ _ ih => exact ih
  | skipped composite _ found _ _ _ ih =>
    have resolved := targetOf_resolved composite found
    intro v member
    rcases List.mem_cons.mp member with rfl | member
    · exact ⟨resolved.fullChain_eq _, by simp, resolved.recorded_eq⟩
    · exact ih v member
  | done composite _ found _ _ _ _ ihBelow ih =>
    have resolved := targetOf_resolved composite found
    intro v member
    rcases List.mem_cons.mp member with rfl | member
    · refine ⟨resolved.fullChain_eq _, ?_, resolved.recorded_eq⟩
      intro chain ran
      obtain rfl := Option.mem_some_iff.mp ran
      exact resolved.fullChain_eq _
    · rcases List.mem_append.mp member with inside | later
      · exact ihBelow v inside
      · exact ih v later

theorem nodes_of_traced
    (traced : setup.traversal.Traced shape topdown inherited nodes s log results after)
    (complete : ∀ v ∈ log, v.up.isSome = true) (s' : Store σ) (inherited' : Value) :
    log.map Visit.node =
      (nodes.flatMap fun n => n.inForce s' inherited').map Prod.fst := by
  induction traced generalizing inherited' with
  | nil => rfl
  | leaf simple _ _ ih =>
    rw [List.flatMap_cons, Node.inForce_of_leaf simple, List.nil_append]
    exact ih complete inherited'
  | skipped => exact absurd (complete _ List.mem_cons_self) Bool.false_ne_true
  | done composite _ _ _ _ _ _ ihBelow ih =>
    have later := ih (fun v h => complete v (List.mem_cons_of_mem _ (List.mem_append_right _ h)))
      inherited'
    have inside := ihBelow
      (fun v h => complete v (List.mem_cons_of_mem _ (List.mem_append_left _ h)))
    rw [List.flatMap_cons, Node.inForce_of_composite composite, List.map_cons, List.map_append,
      inside, later, List.cons_append, List.map_cons, List.map_append]

theorem Calm.traversal (calm : setup.Calm) : setup.traversal.Calm :=
  setup.forall_link calm Standard.run_calm

/-- Over a run with calm handlers stamps stay, and only the warnings of the visits are recorded. -/
theorem calm_of_traced (calm : setup.Calm) (shaped : shape.Calm)
    (traced : setup.traversal.Traced shape topdown inherited nodes s log results after) :
    Store.Calm (log.flatMap Visit.warned) s after := by
  induction traced with
  | nil => exact .refl _
  | leaf _ ran _ ih => exact ((calm.traversal.visitLeaf shaped _ _ _).of_run ran).trans ih
  | skipped composite _ found down ended _ ih =>
    have looked := (targetOf_resolved composite found).calm
    have entered := looked.trans ((calm.traversal.descend _ _ _ _).of_run down)
    have left := (Traversal.Calm.endSkipped shaped _ _).of_run ended
    simpa using (entered.trans left).trans ih
  | done composite _ found down _ up _ ihBelow ih =>
    have looked := (targetOf_resolved composite found).calm
    have entered := looked.trans ((calm.traversal.descend _ _ _ _).of_run down)
    have left := (calm.traversal.ascend shaped _ _ _ _ _).of_run up
    simpa using ((entered.trans ihBelow).trans left).trans ih

private theorem inForce_of_traced (calm : setup.Calm) (shaped : shape.Calm)
    (traced : setup.traversal.Traced shape topdown inherited nodes s log results after)
    (complete : ∀ v ∈ log, v.up.isSome = true) (known : ∀ n ∈ nodes, s.Knows n) :
    (log.map fun v => (v.node, v.scope)) = nodes.flatMap fun n => n.inForce s inherited := by
  induction traced with
  | nil => rfl
  | leaf simple ran _ ih =>
    have own := (calm.traversal.visitLeaf shaped _ _ _).of_run ran
    have others := fun n h => known n (List.mem_cons_of_mem _ h)
    rw [List.flatMap_cons, Node.inForce_of_leaf simple, List.nil_append,
      ih complete fun n h => own.knows (others n h), own.inForce_eq others]
  | skipped => exact absurd (complete _ List.mem_cons_self) Bool.false_ne_true
  | done composite inForce found down children up _ ihBelow ih =>
    have looked := (targetOf_resolved composite found).calm
    have entered := looked.trans ((calm.traversal.descend _ _ _ _).of_run down)
    have left := (calm.traversal.ascend shaped _ _ _ _ _).of_run up
    -- Stamps stay on the way to the children, and through them on the way to the later nodes.
    have visited := (entered.trans (calm_of_traced calm shaped children)).trans left
    have others := fun n h => known n (List.mem_cons_of_mem _ h)
    have inner : ∀ n ∈ Traversal.traversed _, Store.Knows _ n := fun n h m below =>
      known _ List.mem_cons_self m (Node.nodes_of_traversed h below)
    have inside := ihBelow
      (fun v h => complete v (List.mem_cons_of_mem _ (List.mem_append_left _ h)))
      fun n h => entered.knows (inner n h)
    have later := ih
      (fun v h => complete v (List.mem_cons_of_mem _ (List.mem_append_right _ h)))
      fun n h => visited.knows (others n h)
    rw [List.flatMap_cons, Node.inForce_of_composite composite, List.map_cons, List.map_append,
      inside, later, entered.inForce_eq inner, visited.inForce_eq others, ← inForce]
    rfl

variable (setup)

/-- Dispatch is exact in all runs over a tree from a store. The runs are those with a trace; every
visit of a trace is exact, and looking for targets records the warnings due at the visits, in their
order. Where nothing was skipped the visits are those that arguments and defaults lead to, in
preorder; where also the handlers are calm and the tree's nodes exist, the scopes in force are those
of the stamps before the run, and the warnings due there are all warnings of the run. -/
structure Dispatches (shape : Shape σ ρ) (topdown inherited : Value) (root : Expr)
    (s : Store σ) : Prop where
  runs : ∀ result after,
    (setup.traversal.visit shape topdown inherited root).run s = (.ok result, after) ↔
      ∃ log, setup.traversal.Traced shape topdown inherited [root] s log [result] after
  visits : ∀ log result after,
    setup.traversal.Traced shape topdown inherited [root] s log [result] after →
      ∀ v ∈ log, setup.Exact v
  lookups : ∀ log result after,
    setup.traversal.Traced shape topdown inherited [root] s log [result] after →
      log.flatMap Visit.warned = log.filterMap fun v => setup.diagnosis v.scope v.node
  preorder : ∀ log result after,
    setup.traversal.Traced shape topdown inherited [root] s log [result] after →
      (∀ v ∈ log, v.up.isSome = true) →
        log.map Visit.node = (root.inForce s inherited).map Prod.fst
  scopes : ∀ log result after,
    setup.traversal.Traced shape topdown inherited [root] s log [result] after →
      (∀ v ∈ log, v.up.isSome = true) → setup.Calm → s.Knows root →
        (log.map fun v => (v.node, v.scope)) = root.inForce s inherited
  warnings : ∀ log result after,
    setup.traversal.Traced shape topdown inherited [root] s log [result] after →
      (∀ v ∈ log, v.up.isSome = true) → setup.Calm → s.Knows root →
        after.warnings = s.warnings ++
          ((root.inForce s inherited).filterMap fun p => setup.diagnosis p.2 p.1).toArray

private theorem warned_eq {log : List (Visit σ)} (visits : ∀ v ∈ log, setup.Exact v) :
    log.flatMap Visit.warned = log.filterMap fun v => setup.diagnosis v.scope v.node := by
  induction log with
  | nil => rfl
  | cons v rest ih =>
    rw [List.flatMap_cons, List.filterMap_cons, (visits v List.mem_cons_self).warned,
      ih fun w h => visits w (List.mem_cons_of_mem _ h)]
    cases setup.diagnosis v.scope v.node <;> rfl

private theorem dispatches_of_calm {shape : Shape σ ρ} (shaped : shape.Calm)
    (topdown inherited : Value)
    (root : Expr) (s : Store σ) : setup.Dispatches shape topdown inherited root s where
  runs _ _ := Traversal.run_visit_eq_ok_iff
  visits _ _ _ traced := exact_of_traced traced
  lookups _ _ _ traced := setup.warned_eq (exact_of_traced traced)
  preorder log result after traced complete := by
    simpa using nodes_of_traced traced complete s inherited
  scopes log result after traced complete calm known := by
    simpa using inForce_of_traced calm shaped traced complete (by simpa using known)
  warnings log result after traced complete calm known := by
    have places : (log.map fun v => (v.node, v.scope)) = root.inForce s inherited := by
      simpa using inForce_of_traced calm shaped traced complete (by simpa using known)
    have due : (log.filterMap fun v => setup.diagnosis v.scope v.node) =
        (root.inForce s inherited).filterMap fun p => setup.diagnosis p.2 p.1 := by
      rw [← places, List.filterMap_map]
      rfl
    rw [(calm_of_traced calm shaped traced).warnings, setup.warned_eq (exact_of_traced traced), due]

/-- Dispatch to targets and its warnings are exact in every run of every traversal, in an analysis
and in a transformation. -/
theorem dispatch_and_warnings_exact (topdown inherited : Value) (root : Expr) (s : Store σ) :
    setup.Dispatches .analysis topdown inherited root s ∧
      setup.Dispatches .transforming topdown inherited root s :=
  ⟨setup.dispatches_of_calm Shape.analysis_calm topdown inherited root s,
    setup.dispatches_of_calm Shape.transforming_calm topdown inherited root s⟩

/-- An analysis with one handler, for calls to the object that both `f` and `k` name. -/
def oneTarget : Setup Unit where
  mode := .analyse
  installs := [.call (.named "f") fun _ _ => pure (.map [])]
  flags := {}
  env := some [("f", .named "f"), ("k", .named "f")]
  params := []

/-- A call of `f` on a call of `k` and a call of `u`. -/
def threeCalls : Expr :=
  .call 0 (.symbol 1 "f") [(none, .call 2 (.symbol 3 "k") []), (none, .call 4 (.symbol 5 "u") [])]

def sixNodes : Store Unit := { Store.initial () with tables := #[[], [], [], [], [], []] }

/-- With `k` bound, the handler runs at the call of `f` only, and there are two warnings. -/
theorem dispatch_and_warnings_exact_threeCalls :
    ∃ (log : List (Visit Unit)) (result : Entries) (after : Store Unit),
      (oneTarget.traversal.visit .analysis (.map []) (.scope ⟨0, [], ["k"]⟩) threeCalls).run
        sixNodes = (.ok result, after) ∧
      (log.map fun v => v.node.calleeName?) = [some "f", some "k", some "u"] ∧
      (∀ v ∈ log, oneTarget.Exact v) ∧
      after.warnings = #[.localShadow "k", .unknownCallee "u"] := by
  obtain ⟨runs, visits, -, -, -, warnings⟩ :=
    (dispatch_and_warnings_exact oneTarget (.map []) (.scope ⟨0, [], ["k"]⟩) threeCalls sixNodes).1
  obtain ⟨log, result, after, traced, names, complete⟩ : ∃ log result after,
      oneTarget.traversal.Traced .analysis (.map []) (.scope ⟨0, [], ["k"]⟩) [threeCalls] sixNodes
        log [result] after ∧
      (log.map fun v => v.node.calleeName?) = [some "f", some "k", some "u"] ∧
      ∀ v ∈ log, v.up.isSome = true := by
    refine ⟨_, _, _, .done rfl rfl rfl rfl (.done rfl rfl rfl rfl .nil rfl
      (.done rfl rfl rfl rfl .nil rfl .nil)) rfl .nil, rfl, ?_⟩
    simp
  have calm : oneTarget.Calm := by
    intro i given
    obtain rfl := List.mem_singleton.mp given
    exact fun _ _ _ => Action.calm_pure _
  have known : sixNodes.Knows threeCalls := by
    intro m below
    have listed : m.tag ∈ threeCalls.nodes.map Node.tag := List.mem_map_of_mem below
    have bounded : ∀ tag ∈ [0, 1, 2, 3, 4, 5], tag < 6 := by decide
    exact bounded m.tag listed
  refine ⟨log, result, after, (runs result after).mpr ⟨log, traced⟩, names,
    visits log result after traced, ?_⟩
  rw [warnings log result after traced complete calm known]
  rfl

end Setup

end TreePass
