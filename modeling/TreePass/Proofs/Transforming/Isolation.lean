import TreePass.Proofs.Transforming.Freshness

/-!
What a transformation does to its input. Handlers of shapes are given nodes that were made for
them, so as long as a handler changes only the node it is given the input stays as it was. Topdown
handlers are given the nodes of the input themselves: what they change in them is changed in the
input.
-/

set_option autoImplicit false
set_option relaxedAutoImplicit false

namespace TreePass

variable {σ β : Type}

/-- Between two stores the nodes that existed and are kept have the same metadata. -/
structure Store.Spares (kept : Tag → Prop) (before after : Store σ) : Prop where
  size : before.tables.size ≤ after.tables.size
  table : ∀ tag < before.tables.size, kept tag → after.table tag = before.table tag

namespace Store

variable {kept kept' : Tag → Prop}

theorem Spares.mono {before after : Store σ} (spares : Spares kept before after)
    (fewer : ∀ tag, kept' tag → kept tag) : Spares kept' before after :=
  ⟨spares.size, fun tag old listed => spares.table tag old (fewer tag listed)⟩

theorem spares_of_tables_eq {before after : Store σ} (same : after.tables = before.tables) :
    Spares kept before after :=
  ⟨Nat.le_of_eq (by rw [same]), fun tag _ _ => table_of_tables_eq same tag⟩

theorem spares_bound (kept : Tag → Prop) : Bound (Spares kept : Store σ → Store σ → Prop) where
  frame frame := ⟨frame.size, fun tag old _ => frame.table tag old List.not_mem_nil⟩
  trans first second := by
    refine ⟨Nat.le_trans first.size second.size, ?_⟩
    intro tag old listed
    rw [second.table tag (Nat.lt_of_lt_of_le old first.size) listed, first.table tag old listed]

end Store

/-- A handler that changes nothing but the metadata of the node it is given. -/
def Handler.Local (handler : Handler σ) : Prop :=
  Handler.Within (fun own => Store.Spares fun tag => tag ≠ own) handler

/-- A handler that changes no metadata. -/
def Handler.Still (handler : Handler σ) : Prop :=
  Handler.Within (fun _ => Store.Spares fun _ => True) handler

private theorem Action.Within.bind_made {kept : Tag → Prop} {make : Action σ Expr}
    {next : Expr → Action σ β} (first : make.Within (Store.Spares kept))
    (new : ∀ s made s', make.run s = (.ok made, s') → s.tables.size ≤ made.tag)
    (rest : ∀ made, (next made).Within (Store.Spares fun tag => kept tag ∧ tag ≠ made.tag)) :
    (make >>= next).Within (Store.Spares kept) := by
  intro s
  have start := first s
  cases ran : make.run s with
  | mk outcome s' =>
    rw [ran] at start
    cases outcome with
    | error fault =>
      rw [run_bind_of_error ran]
      exact start
    | ok made =>
      have later := rest made s'
      rw [run_bind_of_ok ran]
      refine ⟨Nat.le_trans start.size later.size, ?_⟩
      intro tag old listed
      have other : tag ≠ made.tag := Nat.ne_of_lt (Nat.lt_of_lt_of_le old (new s made s' ran))
      rw [later.table tag (Nat.lt_of_lt_of_le old start.size) ⟨listed, other⟩,
        start.table tag old listed]

private theorem Shape.size_le_of_rebuild {node made : Expr} {results : List Expr} {s s' : Store σ}
    (ran : (Shape.rebuild node results).run s = (.ok made, s')) : s.tables.size ≤ made.tag := by
  cases node with
  | atomic | symbol | primitive | pairlist =>
    exact Nat.le_of_eq (Node.withChildren_eq_ok ran).1.symm
  | call tag callee args =>
    obtain ⟨copy, s₁, cloned, ran⟩ := Action.run_bind_eq_ok.mp ran
    rw [(Node.withChildren_eq_ok ran).1]
    exact Action.size_le_of_run cloned

namespace Traversal

variable {t : Traversal σ} {kept : Tag → Prop}

/-- A traversal of a tree comes to its root and to what arguments and defaults lead to. -/
inductive ComesTo : Expr → Expr → Prop
  | self {root : Expr} : ComesTo root root
  | under {root child n : Expr} : child ∈ traversed root → ComesTo child n → ComesTo root n

theorem ComesTo.mem_nodes {root n : Expr} (comes : ComesTo root n) : n ∈ root.nodes := by
  induction comes with
  | self => exact Node.self_mem_nodes _
  | under child _ ih => exact Node.nodes_of_traversed child ih

/-- The nodes that topdown handlers are given: the calls and parameter lists that a traversal comes
to. -/
def Enters (root : Expr) (tag : Tag) : Prop :=
  ∃ n, ComesTo root n ∧ n.kind.isComposite = true ∧ n.tag = tag

variable (t) in
private theorem resolve_spares (callee : Expr) (scope : Value) :
    (t.resolve callee scope).Within (Store.Spares kept) := by
  intro s
  have dispatched (identity : Identity) :
      Store.Spares kept s ((t.dispatch identity).run s).2 := by
    obtain ⟨notes, ran⟩ := t.run_dispatch identity s
    rw [ran]
    exact Store.spares_of_tables_eq rfl
  cases targets : t.config.hasTargets with
  | false =>
    rw [t.resolve_of_no_targets targets]
    exact Store.spares_of_tables_eq rfl
  | true =>
    cases callee with
    | atomic | pairlist | call =>
      simp only [resolve, targets, ↓reduceIte]
      exact Store.spares_of_tables_eq rfl
    | primitive tag ref =>
      simp only [resolve, targets, ↓reduceIte]
      exact dispatched ref
    | symbol tag name =>
      cases bound : scope.isBound name with
      | error fault =>
        simp only [resolve, targets, ↓reduceIte, bound]
        exact Store.spares_of_tables_eq rfl
      | ok found =>
        cases found with
        | true =>
          obtain ⟨notes, ran⟩ := t.run_resolve_of_bound targets tag bound s
          rw [ran]
          exact Store.spares_of_tables_eq rfl
        | false =>
          cases known : t.lookup name with
          | none =>
            obtain ⟨notes, ran⟩ := t.run_resolve_of_unknown targets tag bound known s
            rw [ran]
            exact Store.spares_of_tables_eq rfl
          | some identity =>
            rw [t.resolve_of_known targets tag bound known s]
            exact dispatched identity

private theorem targetOf_spares (node : Expr) (scope : Value) :
    (t.targetOf node scope).Within (Store.Spares kept) := by
  cases node with
  | call tag callee args => exact t.resolve_spares callee scope
  | atomic | symbol | primitive | pairlist =>
    exact Action.within_pure (Store.spares_bound kept) none

private theorem scopeAt_spares (node : Expr) (inherited : Value) :
    (scopeAt node inherited : Action σ Value).Within (Store.Spares kept) := by
  intro s
  rw [run_scopeAt]
  exact Store.spares_of_tables_eq rfl

/-- All handlers of a traversal change nothing but the metadata of the node they are given. -/
def Local (t : Traversal σ) : Prop :=
  ∀ slot target, ∀ link ∈ t.config.fullChain slot target, Handler.Local link.run

theorem Local.invoke (handlers : t.Local) (slot : Slot) (target : Option Identity)
    (ctx : Context σ) (node : Expr) :
    (Traversal.invoke ctx (t.config.fullChain slot target) node).Within
      (Store.Spares fun tag => tag ≠ node.tag) :=
  invoke_within (fun _ => (Store.spares_bound _).refl) (handlers slot target) ctx node

private theorem Local.call_made (handlers : t.Local) (slot : Slot) (target : Option Identity)
    (ctx : Context σ) (kind : Kind) (made : Expr) :
    (do
      let value ← Traversal.invoke ctx (t.config.fullChain slot target) made
      t.finish .transforming slot kind (some made) value).Within
      (Store.Spares fun tag => kept tag ∧ tag ≠ made.tag) := by
  have bound := Store.spares_bound (σ := σ) fun tag => kept tag ∧ tag ≠ made.tag
  refine Action.Within.bind bound ?_ fun value => finish_within bound t slot kind (some made) value
  exact (handlers.invoke slot target ctx made).mono fun _ _ spares =>
    spares.mono fun _ listed => listed.2

private theorem Local.visitLeaf_spares (handlers : t.Local) (topdown inherited : Value)
    (node : Expr) :
    (t.visitLeaf .transforming topdown inherited node).Within (Store.Spares kept) := by
  refine Action.Within.bind (Store.spares_bound kept) (scopeAt_spares node inherited) fun _ => ?_
  refine Action.Within.bind_made (Node.clone_within (Store.spares_bound kept) node) ?_ fun made =>
    handlers.call_made _ _ _ _ made
  intro s made s' cloned
  exact ((Node.fresh_of_clone cloned).new made made.self_mem_nodes).1

private theorem Local.ascend_spares (handlers : t.Local) (target : Option Identity)
    (inner scope : Value) (node : Expr) (results : List Expr) :
    (t.ascend .transforming target inner scope node results).Within (Store.Spares kept) := by
  refine Action.Within.bind_made (Shape.rebuild_within (Store.spares_bound kept) node results) ?_
    fun made => handlers.call_made _ _ _ _ made
  intro s made s' rebuilt
  exact Shape.size_le_of_rebuild rebuilt

private theorem endSkipped_spares (node : Expr) (value : Value) :
    (t.endSkipped .transforming node value).Within (Store.Spares kept) :=
  Action.Within.bind (Store.spares_bound kept) (Action.within_note (Store.spares_bound kept) _)
    fun _ => finish_within (Store.spares_bound kept) t _ _ _ value

/-- The topdown chains spare the kept nodes at every node of a tree at which they run. -/
def SparesDown (t : Traversal σ) (kept : Tag → Prop) (root : Expr) : Prop :=
  ∀ n, ComesTo root n → n.kind.isComposite = true → ∀ target ctx,
    (invoke ctx (t.config.fullChain .topdown target) n).Within (Store.Spares kept)

theorem SparesDown.descend {node : Expr} (down : t.SparesDown kept node)
    (composite : node.kind.isComposite = true) (target : Option Identity) (topdown scope : Value) :
    (t.descend target topdown scope node).Within (Store.Spares kept) :=
  Action.Within.bind (Store.spares_bound kept) (Action.within_newVisit (Store.spares_bound kept))
    fun visit => (down node .self composite target _).catchSkip visit

private theorem visitAll_spares {nodes : List Expr}
    (each : ∀ n ∈ nodes, ∀ topdown inherited,
      (t.visit .transforming topdown inherited n).Within (Store.Spares kept))
    (topdown inherited : Value) :
    (t.visitAll .transforming topdown inherited nodes).Within (Store.Spares kept) := by
  have bound := Store.spares_bound (σ := σ) kept
  induction nodes with
  | nil => exact Action.within_pure bound []
  | cons node rest ih =>
    have first := each node List.mem_cons_self topdown inherited
    have later := ih fun n h => each n (List.mem_cons_of_mem _ h)
    refine Action.Within.bind bound first fun result => ?_
    refine Action.Within.bind bound later fun results => ?_
    exact Action.within_pure bound (result :: results)

private theorem Local.composite_spares (handlers : t.Local) {node : Expr}
    (composite : node.kind.isComposite = true) (down : t.SparesDown kept node)
    (each : ∀ n ∈ traversed node, t.SparesDown kept n → ∀ topdown inherited,
      (t.visit .transforming topdown inherited n).Within (Store.Spares kept))
    (topdown inherited : Value) :
    (t.visit .transforming topdown inherited node).Within (Store.Spares kept) := by
  have bound := Store.spares_bound (σ := σ) kept
  rw [visit_of_composite t _ composite]
  refine Action.Within.bind bound (scopeAt_spares node inherited) fun scope => ?_
  refine Action.Within.bind bound (targetOf_spares node scope) fun target => ?_
  refine Action.Within.bind bound (down.descend composite target topdown scope) fun outcome => ?_
  cases outcome with
  | skipped value => exact endSkipped_spares node value
  | done inner =>
    refine Action.Within.bind bound (visitAll_spares ?_ inner scope) fun results =>
      handlers.ascend_spares target inner scope node results
    intro n child
    exact each n child fun m comes => down m (.under child comes)

private theorem Local.visit_spares (handlers : t.Local) {node : Expr}
    (down : t.SparesDown kept node) (topdown inherited : Value) :
    (t.visit .transforming topdown inherited node).Within (Store.Spares kept) := by
  induction node using Node.induction generalizing topdown inherited with
  | atomic tag value => exact handlers.visitLeaf_spares topdown inherited (.atomic tag value)
  | symbol tag name => exact handlers.visitLeaf_spares topdown inherited (.symbol tag name)
  | primitive tag ref => exact handlers.visitLeaf_spares topdown inherited (.primitive tag ref)
  | pairlist tag params ih =>
    refine handlers.composite_spares rfl down (fun n child => ?_) topdown inherited
    obtain ⟨p, listed, given⟩ := List.mem_filterMap.mp child
    exact ih p listed n given
  | call tag callee args _ ih =>
    refine handlers.composite_spares rfl down (fun n child => ?_) topdown inherited
    obtain ⟨a, listed, rfl⟩ := List.mem_map.mp child
    exact ih a listed

private theorem Local.sparesDown (handlers : t.Local) {root : Expr}
    (apart : ∀ tag, kept tag → ¬ Enters root tag) : t.SparesDown kept root := by
  intro n comes composite target ctx
  refine (handlers.invoke .topdown target ctx n).mono fun _ _ spares => spares.mono ?_
  rintro tag listed rfl
  exact apart n.tag listed ⟨n, comes, composite, rfl⟩

private theorem sparesDown_of_still
    (still : ∀ target, ∀ link ∈ t.config.fullChain .topdown target, Handler.Still link.run)
    (root : Expr) : t.SparesDown kept root := by
  intro n _ _ target ctx
  refine (invoke_within (fun _ => (Store.spares_bound _).refl) (still target) ctx n).mono ?_
  exact fun _ _ spares => spares.mono fun _ _ => trivial

end Traversal

private theorem Policy.annotate_spares {kept : Tag → Prop} (policy : Policy) {fn : Function}
    (list : fn.params.isPairlist = true) :
    (policy.annotate fn : Action σ Function).Within (Store.Spares kept) := by
  intro s
  obtain ⟨out, after, ran, annotated⟩ := policy.annotate_ends list s
  rw [ran]
  exact ⟨Action.size_le_of_run ran, fun _ old _ => annotated.table_eq old⟩

namespace Pass

variable {pass : Pass σ} {kept : Tag → Prop}

private theorem requireMode_spares (mode : Mode) :
    (pass.requireMode mode).Within (Store.Spares kept) := by
  unfold requireMode
  split_ifs
  · exact Action.within_pure (Store.spares_bound kept) ()
  · exact Action.within_fail (Store.spares_bound kept) _

private theorem transformExpr_spares {env : Option Environment}
    (handlers : (pass.traversal env).Local)
    {expr : Expr} (down : (pass.traversal env).SparesDown kept expr) :
    (pass.transformExpr env expr).Within (Store.Spares kept) :=
  Action.Within.bind (Store.spares_bound kept) (requireMode_spares .transform) fun _ =>
    handlers.visit_spares down _ _

theorem ensureAnnotated_cases (fn : Function) (policy : Option Policy) :
    (fn.scope.isSome = true ∧ policy = none ∧
        (ensureAnnotated fn policy : Action σ Function) = pure fn) ∨
      (ensureAnnotated fn policy : Action σ Function) = (policy.getD {}).annotate fn := by
  cases stored : fn.scope with
  | none =>
    refine Or.inr ?_
    simp only [ensureAnnotated, stored]
  | some scope =>
    cases policy with
    | none =>
      refine Or.inl ⟨rfl, rfl, ?_⟩
      simp only [ensureAnnotated, stored]
    | some policy =>
      refine Or.inr ?_
      simp only [ensureAnnotated, stored]

private theorem transformPrepared_spares (handlers : ∀ env, (pass.traversal env).Local)
    {fn : Function} (list : fn.params.isPairlist = true) (policy : Policy)
    (down : (pass.traversal fn.env).SparesDown kept fn.body) :
    (do
      Action.note (.transforming fn.name)
      let body ← (pass.traversal fn.env).transform pass.topdown (fn.scope.getD Scope.empty) fn.body
      policy.annotate { fn with body := body, scope := none } : Action σ Function).Within
      (Store.Spares kept) := by
  have bound := Store.spares_bound (σ := σ) kept
  refine Action.Within.bind bound (Action.within_note bound _) fun _ => ?_
  refine Action.Within.bind bound ((handlers fn.env).visit_spares down _ _) fun body => ?_
  exact policy.annotate_spares list

private theorem transformFunction_spares (handlers : ∀ env, (pass.traversal env).Local)
    {fn : Function} (list : fn.params.isPairlist = true) {policy : Option Policy} {s : Store σ}
    (inPlace : fn.scope.isSome = true → policy = none →
      (pass.traversal fn.env).SparesDown kept fn.body)
    (inCopy : ∀ copy s', ((policy.getD {}).annotate fn).run s = (.ok copy, s') →
      (pass.traversal copy.env).SparesDown kept copy.body) :
    Store.Spares kept s ((pass.transformFunction fn policy).run s).2 := by
  have bound := Store.spares_bound (σ := σ) kept
  -- Checking the mode leaves the store as it is, so the function is prepared from `s` itself.
  have checked : ∀ a s', (pass.requireMode .transform).run s = (.ok a, s') → s' = s := by
    intro a s' ran
    unfold requireMode at ran
    split_ifs at ran
    · exact (Action.ok_inj ran).2.symm
    · cases ran
  refine Action.within_bind_at bound (requireMode_spares .transform s) fun _ s₁ ran => ?_
  obtain rfl := checked _ s₁ ran
  rcases ensureAnnotated_cases (σ := σ) fn policy with ⟨annotated, given, same⟩ | same
  · rw [same, Action.run_bind_of_ok (Action.run_pure fn s₁)]
    exact transformPrepared_spares handlers list _ (inPlace annotated given) s₁
  · rw [same]
    refine Action.within_bind_at bound (Policy.annotate_spares _ list s₁) fun copy s₂ ran => ?_
    refine transformPrepared_spares handlers ?_ _ (inCopy copy s₂ ran) s₂
    rw [← Node.isPairlist_bare, (Policy.annotated_of_run ran).params, Node.isPairlist_bare, list]

end Pass

/-- A pass whose handlers change nothing but the metadata of the node they are given changes, of all
that existed before it, at most calls and parameter lists of the input that topdown handlers were
given, however it ends; and passing over a function changes these only if the function counts as
annotated and no policy is given. Where topdown handlers change no metadata nothing is changed. -/
theorem transformation_changes_only_entered (pass : Pass σ)
    (handlers : ∀ slot target, ∀ link ∈ pass.config.fullChain slot target, Handler.Local link.run)
    (s : Store σ) :
    (∀ env expr, ∀ tag < s.tables.size,
      ((pass.transformExpr env expr).run s).2.table tag ≠ s.table tag →
        Traversal.Enters expr tag) ∧
    (∀ fn policy, fn.params.isPairlist = true → ∀ tag < s.tables.size,
      ((pass.transformFunction fn policy).run s).2.table tag ≠ s.table tag →
        fn.scope.isSome = true ∧ policy = none ∧ Traversal.Enters fn.body tag) ∧
    ((∀ target, ∀ link ∈ pass.config.fullChain .topdown target, Handler.Still link.run) →
      (∀ env expr, ∀ tag < s.tables.size,
        ((pass.transformExpr env expr).run s).2.table tag = s.table tag) ∧
      ∀ fn policy, fn.params.isPairlist = true → ∀ tag < s.tables.size,
        ((pass.transformFunction fn policy).run s).2.table tag = s.table tag) := by
  have locals : ∀ env, (pass.traversal env).Local := fun _ => handlers
  refine ⟨?_, ?_, ?_⟩
  · intro env expr tag old changed
    by_contra outside
    have down : (pass.traversal env).SparesDown (fun t => t = tag) expr := by
      refine (locals env).sparesDown ?_
      rintro _ rfl
      exact outside
    exact changed ((Pass.transformExpr_spares (locals env) down s).table tag old rfl)
  · intro fn policy list tag old changed
    by_contra outside
    have spares : Store.Spares (fun t => t = tag) s
        ((pass.transformFunction fn policy).run s).2 := by
      refine Pass.transformFunction_spares locals list ?_ ?_
      · intro annotated none_given
        refine (locals _).sparesDown ?_
        rintro _ rfl enters
        exact outside ⟨annotated, none_given, enters⟩
      · intro copy s' ran
        refine (locals _).sparesDown ?_
        -- The copy is all new, so no node of it existed before.
        rintro _ rfl ⟨n, comes, -, same⟩
        have new := (Policy.fresh_of_annotate ran).new n (List.mem_append_right _ comes.mem_nodes)
        rw [same] at new
        exact absurd old (Nat.not_lt.mpr new.1)
    exact changed (spares.table tag old rfl)
  · intro still
    have down (env : Option Environment) (root : Expr) :
        (pass.traversal env).SparesDown (fun _ => True) root :=
      Traversal.sparesDown_of_still still root
    refine ⟨?_, ?_⟩
    · intro env expr tag old
      exact (Pass.transformExpr_spares (locals env) (down env expr) s).table tag old trivial
    · intro fn policy list tag old
      exact (Pass.transformFunction_spares locals list (fun _ _ => down _ _)
        fun _ _ _ => down _ _).table tag old trivial

def markNode : Handler σ := fun node ctx => do
  node.setMetadata "note" (.bool true)
  ctx.callNext node

private theorem markNode_local : Handler.Local (markNode : Handler σ) := by
  intro node ctx rest
  have bound := Store.spares_bound (σ := σ) fun tag => tag ≠ node.tag
  refine Action.Within.bind bound ?_ fun _ => ?_
  · intro s
    refine ⟨by simp [Node.setMetadata], ?_⟩
    intro tag _ other
    exact s.table_update_of_ne _ other
  · unfold Context.callNext
    split
    · rename_i next given
      exact rest next given node
    · exact Action.within_fail bound _

/-- The pass that marks nodes at one slot and does nothing else. -/
def markPass (slot : Slot) : Pass σ where
  config := (Config.standard .transform).install slot markNode

private theorem markPass_link {slot place : Slot} {target : Option Identity}
    {link : Link (Handler σ)}
    (member : link ∈ (markPass slot : Pass σ).config.fullChain place target) :
    (place = slot ∧ link = .installed markNode) ∨ ∃ handler, link = .standard handler := by
  have chain : (markPass slot : Pass σ).config.fullChain place target =
      (markPass slot : Pass σ).config.chain place := by
    cases target <;> cases place <;> rfl
  rw [chain, Config.chain, List.mem_append] at member
  rcases member with installed | last
  · obtain ⟨handler, listed, rfl⟩ := List.mem_map.mp installed
    by_cases same : place = slot
    · have only : handler = markNode := by
        simpa [markPass, Config.install, Config.standard, same] using listed
      exact Or.inl ⟨same, by rw [only]⟩
    · simp [markPass, Config.install, Config.standard, same] at listed
  · exact Or.inr ⟨_, List.mem_singleton.mp last⟩

private theorem markPass_local (slot : Slot) :
    ∀ place target, ∀ link ∈ (markPass slot : Pass σ).config.fullChain place target,
      Handler.Local link.run := by
  intro place target link member
  rcases markPass_link member with ⟨-, rfl⟩ | ⟨handler, rfl⟩
  · exact markNode_local
  · exact Standard.run_within (fun _ => Store.spares_bound _) handler

def notedCall : Expr := .call 0 (.symbol 1 "f") [(none, .symbol 2 "a")]

/-- A function of no parameters that counts as annotated and whose body is the call. -/
def notedFunction : Function where
  params := .pairlist 3 []
  body := notedCall
  scope := some Scope.empty

def fourNodes : Store Unit :=
  { Store.initial () with tables := #[[("note", .str "original")], [], [], []] }

/-- A handler of calls marks the result and leaves the note of the input alone. -/
theorem transformation_changes_only_entered_notedCall :
    (∀ place target, ∀ link ∈ (markPass .call : Pass Unit).config.fullChain place target,
      Handler.Local link.run) ∧
    (∀ target, ∀ link ∈ (markPass .call : Pass Unit).config.fullChain .topdown target,
      Handler.Still link.run) ∧
    notedFunction.params.isPairlist = true ∧
    ∃ out after,
      ((markPass .call).transformExpr none notedCall).run fourNodes = (.ok out, after) ∧
      after.table out.tag = [("note", .bool true)] ∧
      (∀ tag < 4, after.table tag = fourNodes.table tag) ∧
      ∀ tag < 4, (((markPass .call).transformFunction notedFunction none).run fourNodes).2.table
        tag = fourNodes.table tag := by
  have handlers := markPass_local (σ := Unit) .call
  have still : ∀ target, ∀ link ∈ (markPass .call : Pass Unit).config.fullChain .topdown target,
      Handler.Still link.run := by
    intro target link member
    rcases markPass_link member with ⟨other, -⟩ | ⟨handler, rfl⟩
    · cases other
    · exact Standard.run_within (fun _ => Store.spares_bound _) handler
  have unchanged := (transformation_changes_only_entered (markPass .call) handlers fourNodes).2.2
    still
  refine ⟨handlers, still, rfl, _, _, rfl, rfl, ?_, ?_⟩
  · exact unchanged.1 none notedCall
  · exact unchanged.2 notedFunction none rfl

/-- However a pass over an expression ends, every node of the input has the metadata it had. -/
def Pass.LeavesInput (pass : Pass σ) : Prop :=
  ∀ (env : Option Environment) (expr : Expr) (s : Store σ), s.Knows expr → ∀ m ∈ expr.nodes,
    ((pass.transformExpr env expr).run s).2.table m.tag = s.table m.tag

/-- A topdown handler that marks the node it is given marks the input. -/
theorem input_changes_on_way_down :
    ¬ ∀ pass : Pass Unit,
      (∀ slot target, ∀ link ∈ pass.config.fullChain slot target, Handler.Local link.run) →
        pass.LeavesInput := by
  intro leaves
  have known : fourNodes.Knows notedCall := by
    intro m below
    have listed : m.tag ∈ notedCall.nodes.map Node.tag := List.mem_map_of_mem below
    have bounded : ∀ tag ∈ [0, 1, 2], tag < 4 := by decide
    exact bounded m.tag listed
  have same := leaves (markPass .topdown) (markPass_local .topdown) none notedCall fourNodes known
    notedCall notedCall.self_mem_nodes
  have changed : (((markPass .topdown).transformExpr none notedCall).run fourNodes).2.table 0 =
      [("note", .bool true)] := rfl
  have before : fourNodes.table 0 = [("note", .str "original")] := rfl
  have clash : ([("note", .bool true)] : Table) = [("note", .str "original")] :=
    changed.symm.trans (same.trans before)
  simp at clash

end TreePass
