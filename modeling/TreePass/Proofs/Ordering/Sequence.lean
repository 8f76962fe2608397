import TreePass.Proofs.Ordering.Recording

/-!
The order of handler calls. At a leaf the chain of its shape runs. At a call or a parameter list
the topdown chain runs first, then come the calls for its arguments or defaults from left to right,
and the chain of its shape runs last; where the call is aimed at an object, the handlers of that
object stand in front. Every run of relays that neither skip nor fail follows this order, in an
analysis and in a transformation.
-/

set_option autoImplicit false
set_option relaxedAutoImplicit false

namespace TreePass

variable {ι σ ρ : Type}

namespace Node

def headsOfParams (params : List (String × Option Expr)) : List (String × Option Expr) :=
  params.map fun p => (p.1, p.2.map fun _ => .atomic 0 .none)

def headsOfArgs (args : List (Option String × Expr)) : List (Option String × Expr) :=
  args.map fun a => (a.1, .atomic 0 .none)

/-- What a node is apart from its identity and the expressions that are visited below it. -/
def head : Expr → Expr
  | .atomic _ value => .atomic 0 value
  | .symbol _ name => .symbol 0 name
  | .primitive _ ref => .primitive 0 ref
  | .pairlist _ params => .pairlist 0 (headsOfParams params)
  | .call _ callee args => .call 0 callee.bare (headsOfArgs args)

private theorem bare_bare (node : Expr) : node.bare.bare = node.bare := by
  induction node using induction_children with
  | step node ih =>
    refine bare_eq_of_trunk_eq node.trunk_bare ?_
    rw [children_bare, List.map_map]
    exact List.map_congr_left ih

private theorem headsOfParams_eq (params : List (String × Option Expr)) :
    headsOfParams params =
      (slots params).map fun slot => (slot.1, if slot.2 then some (.atomic 0 .none) else none) := by
  rw [headsOfParams, slots, List.map_map]
  refine List.map_congr_left ?_
  rintro ⟨name, d | d⟩ - <;> rfl

private theorem headsOfArgs_eq (args : List (Option String × Expr)) :
    headsOfArgs args = (args.map (·.1)).map fun name => (name, .atomic 0 .none) := by
  rw [headsOfArgs, List.map_map]
  rfl

private theorem head_eq_of_trunk_eq {node other : Expr} (same : other.trunk = node.trunk)
    (callee : node.kind = .call → other.children.head?.map bare = node.children.head?.map bare) :
    other.head = node.head := by
  cases node <;> cases other <;> try cases same
  case atomic.atomic.refl | symbol.symbol.refl | primitive.primitive.refl => rfl
  case pairlist.pairlist =>
    rw [head, head, headsOfParams_eq, Trunk.pairlist.inj same, headsOfParams_eq]
  case call.call =>
    rw [head, head, Option.some.inj (callee rfl), headsOfArgs_eq, Trunk.call.inj same,
      headsOfArgs_eq]

private theorem head_bare (node : Expr) : node.bare.head = node.head := by
  refine head_eq_of_trunk_eq node.trunk_bare fun _ => ?_
  rw [children_bare, List.head?_map, Option.map_map]
  exact congrFun (congrArg Option.map (funext bare_bare)) _

theorem head_eq_of_bare_eq {node other : Expr} (same : other.bare = node.bare) :
    other.head = node.head := by
  rw [← head_bare other, same, head_bare]

private theorem head_of_withChildren {node made : Expr} {children : List Expr} {s s' : Store σ}
    (ran : (node.withChildren children).run s = (.ok made, s'))
    (callee : node.kind = .call → children.head?.map bare = node.children.head?.map bare) :
    made.head = node.head := by
  obtain ⟨fits, rfl, -⟩ := eq_refill_of_withChildren ran
  refine head_eq_of_trunk_eq (trunk_refill _ fits) ?_
  rwa [children_refill _ fits]

end Node

/-- The node that handlers are given for a node of the tree: in an analysis the node itself, in a
transformation a new one that differs in what is below it. -/
def Mode.Stands : Mode → Expr → Expr → Prop
  | .analyse, node, given => given = node
  | .transform, node, given => given.head = node.head

/-- A shape that readies nodes as its mode says and leaves alone what handlers keep. -/
structure Shape.Readies (mode : Mode) (shape : Shape σ ρ) : Prop where
  leaf : ∀ {node made s s'}, (shape.leaf node).run s = (.ok made, s') →
    mode.Stands node made ∧ s'.user = s.user
  composite : ∀ {node results made s s'}, (shape.composite node results).run s = (.ok made, s') →
    mode.Stands node made ∧ s'.user = s.user
  accept : ∀ made value, ∀ result ∈ shape.accept made value, ∀ s, (result.run s).2.user = s.user

private theorem Store.user_bound : Store.Bound fun a b : Store σ => b.user = a.user where
  frame frame := frame.user
  trans first second := second.trans first

namespace Shape

theorem analysis_readies : Readies .analyse (analysis : Shape σ Entries) where
  leaf ran := by
    obtain ⟨rfl, rfl⟩ := Action.ok_inj ran
    exact ⟨rfl, rfl⟩
  composite ran := by
    obtain ⟨rfl, rfl⟩ := Action.ok_inj ran
    exact ⟨rfl, rfl⟩
  accept made value result accepted s := by
    obtain ⟨entries, -, rfl⟩ := Option.map_eq_some_iff.mp accepted
    rfl

theorem transforming_readies : Readies .transform (transforming : Shape σ Expr) where
  leaf {node made s s'} ran :=
    ⟨Node.head_eq_of_bare_eq (Node.copied_of_clone ran).1,
      (Node.clone_within Store.user_bound node).of_run ran⟩
  composite {node results made s s'} ran := by
    refine ⟨?_, (rebuild_within Store.user_bound node results).of_run ran⟩
    cases node with
    | call tag callee args =>
      obtain ⟨copy, s₁, cloned, ran⟩ := Action.run_bind_eq_ok.mp ran
      exact Node.head_of_withChildren ran fun _ =>
        congrArg some (Node.copied_of_clone cloned).1
    | atomic | symbol | primitive | pairlist =>
      exact Node.head_of_withChildren ran fun call => nomatch call
  accept made value result accepted s := accept_within Store.user_bound made value result accepted s

end Shape

def chainLabels (relays : List (ι × Relay σ)) (standard : Standard) : List (Link ι) :=
  relays.map (fun h => .installed h.1) ++ [.standard standard]

namespace RelaySetup

open Traversal

variable (setup : RelaySetup ι σ)

def labels : List (Install ι) := setup.installs.map (Install.map Prod.fst)

/-- The chain of a slot for a node in a scope: the handlers of the object the node is aimed at,
newest first, then those of the slot, newest first, and the standard handler. -/
def chainAt (slot : Slot) (scope : Value) (node : Expr) : List (Link ι) :=
  targetHandlers setup.labels slot (setup.plain.aim scope node) ++
    genericChain setup.mode setup.labels slot

/-- The calls of handlers for nodes that are visited from left to right, and the calls and
parameter lists among those nodes and below them, in preorder, with the scopes in force. -/
inductive InOrder : List Expr → List (Expr × Value) → List (Link ι × Expr) → Prop
  | nil : InOrder [] [] []
  | leaf {node given : Expr} {rest : List Expr} {visits : List (Expr × Value)}
      {later : List (Link ι × Expr)} (simple : node.kind.isComposite = false)
      (stands : setup.mode.Stands node given) (others : InOrder rest visits later) :
      InOrder (node :: rest) visits
        ((genericChain setup.mode setup.labels (Slot.ofKind node.kind)).map (·, given) ++ later)
  | composite {node given : Expr} {scope : Value} {rest : List Expr}
      {within visits : List (Expr × Value)} {inside later : List (Link ι × Expr)}
      (composite : node.kind.isComposite = true) (stands : setup.mode.Stands node given)
      (below : InOrder (traversed node) within inside) (others : InOrder rest visits later) :
      InOrder (node :: rest) ((node, scope) :: (within ++ visits))
        ((setup.chainAt .topdown scope node).map (·, node) ++ inside ++
          (setup.chainAt (Slot.ofKind node.kind) scope node).map (·, given) ++ later)

/-- All relays are steady. -/
def Steady : Prop := ∀ i ∈ setup.installs, Relay.Steady i.added.2

variable {setup}

theorem Steady.relays (steady : setup.Steady) (slot : Slot) (target : Option Identity) :
    ∀ h ∈ setup.relays slot target, Relay.Steady h.2 := by
  intro h member
  rcases List.mem_append.mp member with ofTarget | ofSlot
  · cases target with
    | none => cases ofTarget
    | some identity =>
      obtain ⟨i, given, found⟩ := List.mem_filterMap.mp ofTarget
      exact Install.added_of_forTarget? slot identity found ▸ steady i given
  · obtain ⟨i, given, found⟩ := List.mem_filterMap.mp ofSlot
    exact Install.added_of_forSlot? slot found ▸ steady i given

private theorem labels_forSlot (slot : Slot) : setup.labels.filterMap (Install.forSlot? slot) =
    (setup.installs.filterMap (Install.forSlot? slot)).map Prod.fst := by
  rw [labels, List.filterMap_map, List.map_filterMap]
  exact List.filterMap_congr fun i _ => Install.forSlot?_map _ slot i

private theorem labels_forTarget (slot : Slot) (identity : Identity) :
    setup.labels.filterMap (Install.forTarget? slot identity) =
      (setup.installs.filterMap (Install.forTarget? slot identity)).map Prod.fst := by
  rw [labels, List.filterMap_map, List.map_filterMap]
  exact List.filterMap_congr fun i _ => Install.forTarget?_map _ slot identity i

private theorem relays_labels (slot : Slot) (target : Option Identity) :
    chainLabels (setup.relays slot target) (Standard.ofSlot setup.mode slot) =
      targetHandlers setup.labels slot target ++ genericChain setup.mode setup.labels slot := by
  rw [genericChain, labels_forSlot, chainLabels]
  cases target with
  | none => simp only [relays, targetHandlers, List.nil_append, List.map_map]; rfl
  | some identity =>
    simp only [relays, targetHandlers, labels_forTarget, List.map_append, List.map_map,
      List.append_assoc]
    rfl

private theorem isTargeted_labels (identity : Identity) :
    isTargeted setup.recording.installs identity = isTargeted setup.labels identity := by
  rw [isTargeted, isTargeted, recording, labels, List.any_append, List.any_map, List.any_map]
  have none_there : (setup.standards.any fun i => i.target? == some identity) = false := rfl
  simp only [none_there, Bool.or_false, Function.comp_def, Install.target?_map]

private theorem relays_of_resolved {scope : Value} {node : Expr} {s s' : Store (Recorded ι σ)}
    {target : Option Identity} (resolved : setup.recording.Resolved scope node s target s')
    (slot : Slot) :
    chainLabels (setup.relays slot target) (Standard.ofSlot setup.mode slot) =
      setup.chainAt slot scope node := by
  have aims : setup.recording.aim scope node = setup.plain.aim scope node := by
    cases node <;> rfl
  rw [relays_labels, chainAt, resolved.target, aims]
  cases setup.plain.aim scope node with
  | none => rfl
  | some identity =>
    rw [Option.filter, isTargeted_labels]
    cases installed : isTargeted setup.labels identity with
    | true => rfl
    | false =>
      congr 1
      exact (Config.targetHandlers_eq_nil setup.labels slot installed).symm

end RelaySetup

private theorem Standard.user_of_run (handler : Standard) {node : Expr} {ctx : Context σ}
    {s after : Store σ} {value : Value} (ran : (handler.run node ctx).run s = (.ok value, after)) :
    after.user = s.user := by
  cases handler with
  | keepNode | emptyAnalysis | passTopdown =>
    obtain ⟨-, rfl⟩ := Action.ok_inj ran
    rfl
  | mergeAnalysis =>
    obtain ⟨merged, s₁, known, ended⟩ := Action.run_bind_eq_ok.mp ran
    obtain ⟨-, rfl⟩ := Action.ok_inj ended
    exact (Action.within_ofExcept Store.user_bound _).of_run known

private theorem log_of_invoke (relays : List (ι × Relay σ)) (standard : Standard)
    (last : Link (Handler (Recorded ι σ))) {ctx : Context (Recorded ι σ)} {node : Expr}
    {s after : Store (Recorded ι σ)} {value : Value}
    (ran : (Traversal.invoke ctx (relays.map (fun h => .installed (h.2.recording h.1)) ++
      [.installed standard.recording, last]) node).run s = (.ok value, after)) :
    after.user.log = s.user.log ++ (chainLabels relays standard).map (·, node) := by
  induction relays generalizing s value after with
  | nil =>
    obtain ⟨_, s₁, recorded, ran⟩ := Action.run_bind_eq_ok.mp ran
    obtain ⟨-, rfl⟩ := Action.ok_inj recorded
    rw [standard.user_of_run ran]
    rfl
  | cons relay rest ih =>
    rw [List.map_cons, List.cons_append, Traversal.invoke_cons ctx _ (by simp)] at ran
    obtain ⟨_, s₁, recorded, ran⟩ := Action.run_bind_eq_ok.mp ran
    obtain ⟨-, rfl⟩ := Action.ok_inj recorded
    obtain ⟨finish, s₂, began, ran⟩ := Action.run_bind_eq_ok.mp ran
    obtain ⟨answer, s₃, passed, ended⟩ := Action.run_bind_eq_ok.mp ran
    have first : s₂.user.log = s.user.log ++ [(.installed relay.1, node)] := by
      rw [← (Prod.mk.inj began).2]
      rfl
    have final : after.user.log = s₃.user.log := by
      rw [← (Prod.mk.inj ended).2]
      rfl
    rw [final, ih passed, first, List.append_assoc]
    rfl

private theorem invoke_ends {relays : List (ι × Relay σ)} (steady : ∀ h ∈ relays, Relay.Steady h.2)
    (last : Link (Handler (Recorded ι σ))) (ctx : Context (Recorded ι σ)) (node : Expr)
    (s : Store (Recorded ι σ)) :
    (Traversal.invoke ctx (relays.map (fun h => .installed (h.2.recording h.1)) ++
      [.installed Standard.passTopdown.recording, last]) node).Ends s fun _ _ => True := by
  induction relays generalizing s with
  | nil => exact .of_run rfl trivial
  | cons relay rest ih =>
    rw [List.map_cons, List.cons_append, Traversal.invoke_cons ctx _ (by simp)]
    have calm := steady relay List.mem_cons_self
    set s₀ : Store (Recorded ι σ) := { s with user := { s.user with
      log := s.user.log ++ [(.installed relay.1, node)] } }
    have recorded :
        (Action.record (.installed relay.1) node : Action (Recorded ι σ) Unit).run s =
          (.ok (), s₀) := rfl
    refine Action.ends_bind_of_run recorded ?_
    obtain ⟨finish, s₁, began, finishes⟩ := calm node ctx.forget s.forget
    have lifted : (relay.2 node ctx.forget).lift.run s₀ =
        (.ok finish, s₁.withLog s₀.user.log) := by
      have same : s₀.forget = s.forget := rfl
      simp only [Action.lift, same, began]
    refine Action.ends_bind_of_run lifted ?_
    have later := ih (fun h member => steady h (List.mem_cons_of_mem _ member))
      (s₁.withLog s₀.user.log)
    refine Action.Ends.bind later fun answer s₂ _ => ?_
    obtain ⟨result, s₃, ended, -⟩ := finishes answer s₂.forget
    have closed : (finish answer).lift.run s₂ = (.ok result, s₃.withLog s₂.user.log) := by
      simp only [Action.lift, ended]
    exact .of_run closed trivial

namespace RelaySetup

open Traversal

variable {setup : RelaySetup ι σ} {shape : Shape (Recorded ι σ) ρ}

private theorem finish_user (readies : shape.Readies setup.mode) {slot : Slot} {kind : Kind}
    {made : Option Expr} {value : Value} {s after : Store (Recorded ι σ)} {result : ρ}
    (ran : (setup.recording.traversal.finish shape slot kind made value).run s =
      (.ok result, after)) : after.user = s.user := by
  unfold Traversal.finish at ran
  split at ran
  · rename_i accepted given
    have kept := readies.accept made value accepted given s
    rw [ran] at kept
    exact kept
  · cases ran

private theorem user_of_resolve {callee : Expr} {scope : Value} {s after : Store (Recorded ι σ)}
    {target : Option Identity}
    (ran : (setup.recording.traversal.resolve callee scope).run s = (.ok target, after)) :
    after.user = s.user := by
  have warned (warning : Warning) :
      Action.Within (fun a b : Store (Recorded ι σ) => b.user = a.user)
      (setup.recording.traversal.warn warning) := by
    intro s
    rw [Traversal.run_warn]
  have dispatched (identity : Identity) :
      Action.Within (fun a b : Store (Recorded ι σ) => b.user = a.user)
        (setup.recording.traversal.dispatch identity) := by
    intro s
    obtain ⟨notes, ran⟩ := setup.recording.traversal.run_dispatch identity s
    rw [ran]
  have bound : Store.Bound fun a b : Store (Recorded ι σ) => b.user = a.user := Store.user_bound
  have whole : Action.Within (fun a b : Store (Recorded ι σ) => b.user = a.user)
      (setup.recording.traversal.resolve callee scope) := by
    unfold Traversal.resolve
    split_ifs
    · cases callee with
      | atomic | pairlist | call => exact Action.within_pure bound _
      | primitive tag ref => exact dispatched ref
      | symbol tag name =>
        refine Action.Within.bind bound (Action.within_ofExcept bound _) fun answer => ?_
        split_ifs
        · refine Action.Within.bind bound (Action.within_note bound _) fun _ => ?_
          exact Action.Within.bind bound (warned _) fun _ => Action.within_pure bound _
        · exact Action.within_pure bound _
        · cases setup.recording.traversal.lookup name with
          | some identity => exact dispatched identity
          | none =>
            refine Action.Within.bind bound (Action.within_note bound _) fun _ => ?_
            exact Action.Within.bind bound (warned _) fun _ => Action.within_pure bound _
    · exact Action.within_pure bound _
  exact whole.of_run ran

private theorem user_of_targetOf {node : Expr} {scope : Value} {s after : Store (Recorded ι σ)}
    {target : Option Identity}
    (ran : (setup.recording.traversal.targetOf node scope).run s = (.ok target, after)) :
    after.user = s.user := by
  cases node with
  | call tag callee args => exact user_of_resolve ran
  | atomic | symbol | primitive | pairlist =>
    obtain ⟨-, rfl⟩ := Action.ok_inj ran
    rfl

private theorem log_of_visitLeaf (readies : shape.Readies setup.mode) {topdown inherited : Value}
    {node : Expr} {s after : Store (Recorded ι σ)} {result : ρ}
    (ran : (setup.recording.traversal.visitLeaf shape topdown inherited node).run s =
      (.ok result, after)) :
    ∃ given, setup.mode.Stands node given ∧ after.user.log = s.user.log ++
      (genericChain setup.mode setup.labels (Slot.ofKind node.kind)).map (·, given) := by
  rw [Traversal.visitLeaf, Action.run_bind_of_ok (run_scopeAt node inherited s)] at ran
  obtain ⟨made, s₁, ready, ran⟩ := Action.run_bind_eq_ok.mp ran
  obtain ⟨value, s₂, invoked, ended⟩ := Action.run_bind_eq_ok.mp ran
  obtain ⟨stands, kept⟩ := readies.leaf ready
  rw [recording_fullChain] at invoked
  refine ⟨made, stands, ?_⟩
  rw [finish_user readies ended, log_of_invoke _ _ _ invoked, kept, relays_labels]
  rfl

private theorem log_of_descend {topdown scope inner : Value} {node : Expr}
    {target : Option Identity} {s after : Store (Recorded ι σ)}
    (ran : (setup.recording.traversal.descend target topdown scope node).run s =
      (.ok (.done inner), after)) :
    after.user.log = s.user.log ++
      (chainLabels (setup.relays .topdown target) (Standard.ofSlot setup.mode .topdown)).map
        (·, node) := by
  rw [Traversal.descend, Action.run_bind_of_ok (Action.run_newVisit s)] at ran
  rw [recording_fullChain] at ran
  simp only [Action.catchSkip] at ran
  split at ran
  · rename_i value s₁ invoked
    obtain ⟨same, rfl⟩ := Action.ok_inj ran
    rw [log_of_invoke _ _ _ invoked]
  · split at ran
    · cases (Action.ok_inj ran).1
    · cases ran
  · cases ran

theorem descend_not_skipped (steady : setup.Steady) {topdown scope value : Value} {node : Expr}
    {target : Option Identity} {s after : Store (Recorded ι σ)}
    (ran : (setup.recording.traversal.descend target topdown scope node).run s =
      (.ok (.skipped value), after)) : False := by
  have passes : Standard.ofSlot setup.mode .topdown = .passTopdown := by
    cases setup.mode <;> rfl
  rw [Traversal.descend, Action.run_bind_of_ok (Action.run_newVisit s), recording_fullChain,
    passes] at ran
  obtain ⟨inner, s₁, invoked, -⟩ := invoke_ends (steady.relays .topdown target)
    (.standard .passTopdown) (setup.recording.traversal.context topdown scope none (some s.visits))
    node { s with visits := s.visits + 1 }
  rw [Action.run_catchSkip_of_ok invoked] at ran
  cases (Action.ok_inj ran).1

private theorem log_of_ascend (readies : shape.Readies setup.mode) {inner scope : Value}
    {node : Expr}
    {target : Option Identity} {results : List ρ} {s after : Store (Recorded ι σ)} {result : ρ}
    (ran : (setup.recording.traversal.ascend shape target inner scope node results).run s =
      (.ok result, after)) :
    ∃ given, setup.mode.Stands node given ∧ after.user.log = s.user.log ++
      (chainLabels (setup.relays (Slot.ofKind node.kind) target)
        (Standard.ofSlot setup.mode (Slot.ofKind node.kind))).map (·, given) := by
  obtain ⟨made, s₁, ready, ran⟩ := Action.run_bind_eq_ok.mp ran
  obtain ⟨value, s₂, invoked, ended⟩ := Action.run_bind_eq_ok.mp ran
  obtain ⟨stands, kept⟩ := readies.composite ready
  rw [recording_fullChain] at invoked
  refine ⟨made, stands, ?_⟩
  rw [finish_user readies ended, log_of_invoke _ _ _ invoked, kept]

variable {topdown inherited : Value} {nodes : List Expr} {s after : Store (Recorded ι σ)}
  {log : List (Visit (Recorded ι σ))} {results : List ρ}

theorem inOrder_of_traced (steady : setup.Steady) (readies : shape.Readies setup.mode)
    (traced : setup.recording.traversal.Traced shape topdown inherited nodes s log results after) :
    ∃ events, after.user.log = s.user.log ++ events ∧
      setup.InOrder nodes (log.map fun v => (v.node, v.scope)) events := by
  induction traced with
  | nil => exact ⟨[], (List.append_nil _).symm, .nil⟩
  | leaf simple ran _ ih =>
    obtain ⟨given, stands, own⟩ := log_of_visitLeaf readies ran
    obtain ⟨later, others, ordered⟩ := ih
    refine ⟨_, ?_, .leaf simple stands ordered⟩
    rw [others, own, List.append_assoc]
  | skipped composite _ found down _ _ _ =>
    exact absurd down fun ran => descend_not_skipped steady ran
  | @done _ _ scope _ node _ _ s₁ s₂ s₃ s₄ _ target _ _ _ _ _ composite _ found down _ up _
      ihBelow ih =>
    have resolved := Setup.targetOf_resolved composite found
    have entered := log_of_descend down
    obtain ⟨inside, below, orderedBelow⟩ := ihBelow
    obtain ⟨given, stands, left⟩ := log_of_ascend readies up
    obtain ⟨later, others, ordered⟩ := ih
    rw [relays_of_resolved resolved] at entered
    rw [relays_of_resolved resolved] at left
    refine ⟨_, ?_, by
      rw [List.map_cons, List.map_append]
      exact .composite composite stands orderedBelow ordered⟩
    rw [others, left, below, entered, user_of_targetOf found]
    simp only [List.append_assoc]

end RelaySetup

end TreePass
