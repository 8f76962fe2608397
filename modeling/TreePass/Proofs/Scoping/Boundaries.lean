import TreePass.Proofs.Scoping.Lexical
import Mathlib.Data.List.Flatten
import Mathlib.Data.List.Pairwise

/-!
The boundaries of scopes. After stamping, a node and the node above it carry one scope object,
unless the lower one is the parameter list or the body of a function literal: then it carries a
scope that was made for this literal and is no other one, even if both hold the same names.
-/

set_option autoImplicit false
set_option relaxedAutoImplicit false

namespace TreePass

variable {σ : Type}

namespace Node

section

variable {root : Expr} (distinct : root.nodes.Nodup)

include distinct

theorem child_unique {c d n : Expr} (first : c ∈ root.children) (second : d ∈ root.children)
    (inFirst : n ∈ c.nodes) (inSecond : n ∈ d.nodes) : c = d := by
  rw [nodes_eq, List.nodup_cons, List.nodup_flatMap] at distinct
  by_contra different
  have symmetric : Std.Symm (Function.onFun List.Disjoint (nodes : Expr → List Expr)) :=
    ⟨fun _ _ apart _ first second => apart second first⟩
  have apart := distinct.2.2.forall first second different
  exact apart inFirst inSecond

theorem root_not_child {n : Expr} (member : n ∈ root.nodes) : root ∉ n.children := by
  intro child
  rw [nodes_eq, List.nodup_cons] at distinct
  refine distinct.1 ?_
  rcases mem_nodes_iff.mp member with rfl | ⟨c, above, below⟩
  · exact List.mem_flatMap.mpr ⟨n, child, n.self_mem_nodes⟩
  · exact List.mem_flatMap.mpr ⟨c, above, child_mem_nodes below child⟩

end

theorem parent_unique {root : Expr} (distinct : root.nodes.Nodup) {p q c : Expr}
    (first : p ∈ root.nodes) (second : q ∈ root.nodes) (below : c ∈ p.children)
    (below' : c ∈ q.children) : p = q := by
  induction root using induction_children with
  | step root ih =>
    have distinctBelow {d : Expr} (child : d ∈ root.children) : d.nodes.Nodup := by
      rw [nodes_eq, List.nodup_cons, List.nodup_flatMap] at distinct
      exact distinct.2.1 d child
    -- A child of the root is no child of a node below the root.
    have topmost {d n : Expr} (child : c ∈ root.children) (above : d ∈ root.children)
        (inside : n ∈ d.nodes) (lower : c ∈ n.children) : False := by
      obtain rfl := child_unique distinct child above c.self_mem_nodes
        (child_mem_nodes inside lower)
      exact root_not_child (distinctBelow above) inside lower
    rcases mem_nodes_iff.mp first with rfl | ⟨d, child, inside⟩
    · rcases mem_nodes_iff.mp second with rfl | ⟨e, child', inside'⟩
      · rfl
      · exact (topmost below child' inside' below').elim
    · rcases mem_nodes_iff.mp second with rfl | ⟨e, child', inside'⟩
      · exact (topmost below' child inside below).elim
      · obtain rfl := child_unique distinct child child' (child_mem_nodes inside below)
          (child_mem_nodes inside' below')
        exact ih d child (distinctBelow child) inside inside'

end Node

private theorem Store.stamp?_of_frame {changed : List Tag} {s s' : Store σ}
    (frame : Store.Frame changed s s') {n : Expr} (live : n.tag < s.tables.size)
    (kept : n.tag ∉ changed) : s'.stamp? n = s.stamp? n := by
  rw [stamp?, stamp?, frame.table n.tag live kept]

private theorem Store.stamp?_update (s : Store σ) {n : Expr} (live : n.tag < s.tables.size)
    (scope : Scope) :
    (s.update n.tag (Table.put Node.scopeKey (.scope scope))).stamp? n = some (.scope scope) := by
  simp only [stamp?, s.table_update_self _ live, Table.find?_put_self]

namespace Policy

variable (policy : Policy)

theorem mem_children_of_isPart {node child : Expr} (part : policy.IsPart node child) :
    child ∈ node.children := by
  cases node with
  | atomic | symbol | primitive | pairlist =>
    obtain ⟨literal, parts, -⟩ := part
    cases parts
  | call tag callee args =>
    obtain ⟨a, taken, rfl⟩ := policy.isPart_iff.mp part
    exact List.mem_cons_of_mem _ (List.mem_map_of_mem (List.mem_of_mem_take taken))

/-- A node and its children: a child carries the scope object of the node, unless it is a part of
the function literal that the node is; then it carries another one. -/
def Bordered (s : Store σ) (node : Expr) : Prop :=
  ∃ own : Scope, s.stamp? node = some (.scope own) ∧
    ∀ c ∈ node.children, ∃ scope : Scope, s.stamp? c = some (.scope scope) ∧
      (scope.tag = own.tag ↔ ¬ policy.IsPart node c)

/-- A tree with a scope at its root and boundaries at the parts of function literals only. -/
structure Bounded (s : Store σ) (info : Scope) (root : Expr) : Prop where
  stamped : s.stamp? root = some (.scope info)
  below : ∀ n ∈ root.nodes, policy.Bordered s n

variable {policy}

theorem Bounded.congr {s s' : Store σ} {info : Scope} {root : Expr}
    (bounded : policy.Bounded s info root) (same : ∀ n ∈ root.nodes, s'.stamp? n = s.stamp? n) :
    policy.Bounded s' info root where
  stamped := by rw [same root root.self_mem_nodes, bounded.stamped]
  below n member := by
    obtain ⟨own, stamped, borders⟩ := bounded.below n member
    refine ⟨own, by rw [same n member, stamped], fun c child => ?_⟩
    rw [same c (Node.child_mem_nodes member child)]
    exact borders c child

theorem Bounded.of_frame {s s' : Store σ} {info : Scope} {root : Expr} {others : List Expr}
    (bounded : policy.Bounded s info root) (frame : Store.Frame (others.map Node.tag) s s')
    (separate : Separate s (root.nodes ++ others)) : policy.Bounded s' info root := by
  refine bounded.congr fun n member => ?_
  refine Store.stamp?_of_frame frame (separate.left.live n member) fun changed => ?_
  obtain ⟨m, other, same⟩ := List.mem_map.mp changed
  exact separate.apart member other same.symm

private theorem bordered_of_uniform {s : Store σ} {info : Scope} {node : Expr}
    (stamped : s.stamp? node = some (.scope info))
    (children : ∀ c ∈ node.children, s.stamp? c = some (.scope info))
    (whole : ∀ c ∈ node.children, ¬ policy.IsPart node c) : policy.Bordered s node :=
  ⟨info, stamped, fun c child => ⟨info, children c child, iff_of_true rfl (whole c child)⟩⟩

/-- Stamping a tree with a scope that exists bounds its scopes, and touches no other node. -/
def Bounds (σ : Type) (policy : Policy) (node : Expr) : Prop :=
  ∀ (info : Scope) (s : Store σ), Separate s node.nodes → info.tag < s.scopes →
    (policy.stamp info node).Ends s fun _ s' =>
      policy.Bounded s' info node ∧ Store.Frame (node.nodes.map Node.tag) s s'

variable (policy)

private theorem stampArgs_bounds {args : List (Option String × Expr)}
    (each : ∀ a ∈ args, Bounds σ policy a.2) {scopes : Expr → Scope} {s : Store σ}
    (known : ∀ a ∈ args, (scopes a.2).tag < s.scopes)
    (separate : Separate s (Node.nodesOfArgs args)) :
    (policy.stampArgs scopes args).Ends s fun _ s' =>
      (∀ a ∈ args, policy.Bounded s' (scopes a.2) a.2) ∧
        Store.Frame ((Node.nodesOfArgs args).map Node.tag) s s' := by
  induction args generalizing s with
  | nil => exact Action.ends_pure ⟨fun a member => absurd member List.not_mem_nil, .refl _ s⟩
  | cons a rest ih =>
    have later := @ih fun b h => each b (List.mem_cons_of_mem _ h)
    have first := each a List.mem_cons_self
    obtain ⟨name, a⟩ := a
    obtain ⟨_, s₁, ran, bounded, frame⟩ :=
      first (scopes a) s separate.left (known (name, a) List.mem_cons_self)
    have counted := Action.scopes_le_of_run ran
    refine Action.ends_bind_of_run ran ?_
    have known' : ∀ b ∈ rest, (scopes b.2).tag < s₁.scopes := fun b h =>
      Nat.lt_of_lt_of_le (known b (List.mem_cons_of_mem _ h)) counted
    refine (later known' (separate.right.later frame.size)).mono ?_
    rintro _ s₂ ⟨others, frame'⟩
    constructor
    · intro b member
      rcases List.mem_cons.mp member with rfl | member
      · exact bounded.of_frame frame' (separate.later frame.size)
      · exact others b member
    · rw [Node.nodesOfArgs, List.map_append]
      exact (frame.mono (List.subset_append_left _ _)).trans
        (frame'.mono (List.subset_append_right _ _))

private theorem stampParams_bounds {params : List (String × Option Expr)}
    (each : ∀ p ∈ params, ∀ d ∈ p.2, Bounds σ policy d) {info : Scope} {s : Store σ}
    (known : info.tag < s.scopes) (separate : Separate s (Node.nodesOfParams params)) :
    (policy.stampParams info params).Ends s fun _ s' =>
      (∀ p ∈ params, ∀ d ∈ p.2, policy.Bounded s' info d) ∧
        Store.Frame ((Node.nodesOfParams params).map Node.tag) s s' := by
  induction params generalizing s with
  | nil => exact Action.ends_pure ⟨fun p member => absurd member List.not_mem_nil, .refl _ s⟩
  | cons p rest ih =>
    have later := @ih fun q h => each q (List.mem_cons_of_mem _ h)
    obtain ⟨name, d | d⟩ := p
    · refine (later known separate).mono ?_
      rintro _ s' ⟨others, frame⟩
      refine ⟨fun q member e given => ?_, frame⟩
      rcases List.mem_cons.mp member with rfl | member
      · cases given
      · exact others q member e given
    · obtain ⟨_, s₁, ran, bounded, frame⟩ :=
        each (name, some d) List.mem_cons_self d rfl info s separate.left known
      refine Action.ends_bind_of_run ran ?_
      have known' := Nat.lt_of_lt_of_le known (Action.scopes_le_of_run ran)
      refine (later known' (separate.right.later frame.size)).mono ?_
      rintro _ s₂ ⟨others, frame'⟩
      constructor
      · intro q member e given
        rcases List.mem_cons.mp member with rfl | member
        · obtain rfl := Option.mem_some_iff.mp given
          exact bounded.of_frame frame' (separate.later frame.size)
        · exact others q member e given
      · rw [Node.nodesOfParams, List.map_append]
        exact (frame.mono (List.subset_append_left _ _)).trans
          (frame'.mono (List.subset_append_right _ _))

private theorem callee_not_part {s : Store σ} (tag : Tag) {callee : Expr}
    {args : List (Option String × Expr)}
    (separate : Separate s (callee.nodes ++ Node.nodesOfArgs args)) :
    ¬ policy.IsPart (.call tag callee args) callee := by
  intro part
  obtain ⟨a, taken, same⟩ := policy.isPart_iff.mp part
  have below : a.2 ∈ Node.nodesOfArgs args :=
    Node.mem_nodesOfArgs.mpr ⟨a, List.mem_of_mem_take taken, a.2.self_mem_nodes⟩
  exact separate.apart callee.self_mem_nodes below (by rw [same])

private theorem further_not_part {s : Store σ} (tag : Tag) (callee : Expr)
    {args : List (Option String × Expr)} (separate : Separate s (Node.nodesOfArgs args))
    {a : Option String × Expr}
    (further : a ∈ args.drop (policy.partCount (.call tag callee args))) :
    ¬ policy.IsPart (.call tag callee args) a.2 := by
  intro part
  obtain ⟨b, taken, same⟩ := policy.isPart_iff.mp part
  have inside {a : Option String × Expr} {args : List (Option String × Expr)} (member : a ∈ args) :
      a.2 ∈ Node.nodesOfArgs args := Node.mem_nodesOfArgs.mpr ⟨a, member, a.2.self_mem_nodes⟩
  rw [← List.take_append_drop (policy.partCount (.call tag callee args)) args,
    Node.nodesOfArgs_eq, List.map_append, List.flatMap_append, ← Node.nodesOfArgs_eq,
    ← Node.nodesOfArgs_eq] at separate
  exact separate.apart (inside taken) (inside further) (by rw [same])

private theorem root_stamped {s s₁ : Store σ} (node : Expr) {below : List Expr} {info : Scope}
    (separate : Separate s (node :: below))
    (frame : Store.Frame (below.map Node.tag)
      (s.update node.tag (Table.put Node.scopeKey (.scope info))) s₁) :
    s₁.stamp? node = some (.scope info) ∧
      Store.Frame ((node :: below).map Node.tag) s s₁ := by
  have live := separate.live node List.mem_cons_self
  have own : Store.Frame [node.tag] s
      (s.update node.tag (Table.put Node.scopeKey (.scope info))) := by
    refine ⟨by simp, fun tag _ untouched => ?_, rfl, rfl⟩
    exact s.table_update_of_ne _ (by simpa using untouched)
  constructor
  · rw [Store.stamp?_of_frame frame (by simpa using live) (List.nodup_cons.mp separate.distinct).1,
      Store.stamp?_update s live]
  · rw [List.map_cons]
    exact (own.mono (by simp)).trans (frame.mono (List.subset_cons_self _ _))

/-- The step of the induction at a call: only the parts of a function literal get the scope that it
opens, which is made then. -/
theorem call_bounds {tag : Tag} {callee : Expr} {args : List (Option String × Expr)}
    (ihCallee : Bounds σ policy callee) (ihArgs : ∀ a ∈ args, Bounds σ policy a.2) :
    Bounds σ policy (.call tag callee args) := by
  intro info s separate known
  have below : Separate s (callee.nodes ++ Node.nodesOfArgs args) := separate.tail
  refine Action.ends_bind_of_run (Action.run_setMetadata tag _ _ s) ?_
  have below₀ := below.later (s.grows_update tag (Table.put Node.scopeKey (.scope info))).tables
  obtain ⟨scopes, s₁, ran, ofCallee, ⟨inner, -, ofParts⟩, ofOthers, frame⟩ :=
    policy.childScopes_ends tag info below₀
  have known₁ : info.tag < s₁.scopes := Nat.lt_of_lt_of_le known (Action.scopes_le_of_run ran :)
  refine Action.ends_bind_of_run ran ?_
  have below₁ := below₀.later frame.size
  rw [ofCallee]
  obtain ⟨_, s₂, ran', boundedCallee, frame'⟩ := ihCallee info s₁ below₁.left known₁
  have counted := Action.scopes_le_of_run ran'
  refine Action.ends_bind_of_run ran' ?_
  have below₂ := below₁.later frame'.size
  have either {a : Option String × Expr} (member : a ∈ args) :
      a ∈ args.take (policy.partCount (.call tag callee args)) ∨
        a ∈ args.drop (policy.partCount (.call tag callee args)) := by
    rwa [← List.mem_append, List.take_append_drop]
  have known₂ : ∀ a ∈ args, (scopes a.2).tag < s₂.scopes := by
    intro a member
    rcases either member with part | further
    · rw [(ofParts a part).1]
      exact Nat.lt_of_lt_of_le (ofParts a part).2.2 counted
    · rw [ofOthers a further]
      exact Nat.lt_of_lt_of_le known₁ counted
  refine (policy.stampArgs_bounds ihArgs known₂ below₂.right).mono ?_
  rintro _ s₃ ⟨boundedArgs, frame''⟩
  have boundedCallee' := boundedCallee.of_frame frame'' below₂
  have whole : Store.Frame ((callee.nodes ++ Node.nodesOfArgs args).map Node.tag)
      (s.update tag (Table.put Node.scopeKey (.scope info))) s₃ := by
    rw [List.map_append]
    exact ((frame.mono (List.nil_subset _)).trans
      (frame'.mono (List.subset_append_left _ _))).trans
        (frame''.mono (List.subset_append_right _ _))
  obtain ⟨stamped, frames⟩ := root_stamped (.call tag callee args) separate whole
  refine ⟨⟨stamped, fun n member => ?_⟩, frames⟩
  rcases List.mem_cons.mp member with rfl | member
  · refine ⟨info, stamped, fun c child => ?_⟩
    rcases List.mem_cons.mp child with rfl | child
    · exact ⟨info, boundedCallee'.stamped, iff_of_true rfl (policy.callee_not_part tag below)⟩
    · obtain ⟨a, listed, rfl⟩ := List.mem_map.mp child
      refine ⟨scopes a.2, (boundedArgs a listed).stamped, ?_⟩
      rcases either listed with part | further
      · obtain ⟨opened, new, -⟩ := ofParts a part
        have different : (scopes a.2).tag ≠ info.tag := by
          rw [opened, new]
          exact Nat.ne_of_gt known
        have isPart : policy.IsPart (.call tag callee args) a.2 :=
          policy.isPart_iff.mpr ⟨a, part, rfl⟩
        exact iff_of_false different (not_not_intro isPart)
      · rw [ofOthers a further]
        exact iff_of_true rfl (policy.further_not_part tag callee below.right further)
  · rcases List.mem_append.mp member with inCallee | inArgs
    · exact boundedCallee'.below n inCallee
    · obtain ⟨a, listed, inside⟩ := Node.mem_nodesOfArgs.mp inArgs
      exact (boundedArgs a listed).below n inside

private theorem stamp_bounds (node : Expr) : Bounds σ policy node := by
  have leaf {node : Expr} (simple : node.children = []) (single : node.nodes = [node])
      (stamps : ∀ info : Scope, (policy.stamp info node : Action σ Unit) =
        Action.setMetadata node.tag Node.scopeKey (.scope info)) : Bounds σ policy node := by
    intro info s separate _
    rw [single] at separate
    obtain ⟨stamped, frame⟩ := root_stamped node separate (.refl _ _)
    rw [stamps]
    refine .of_run (Action.run_setMetadata _ _ _ s) ⟨⟨stamped, fun n member => ?_⟩, ?_⟩
    · rw [single, List.mem_singleton] at member
      subst member
      exact ⟨info, stamped, by simp [simple]⟩
    · rw [single]
      exact frame
  induction node using Node.induction with
  | atomic | symbol | primitive => exact leaf rfl rfl fun _ => rfl
  | pairlist tag params ih =>
    intro info s separate known
    have below : Separate s (Node.nodesOfParams params) := separate.tail
    refine Action.ends_bind_of_run (Action.run_setMetadata tag _ _ s) ?_
    have below₀ := below.later (s.grows_update tag (Table.put Node.scopeKey (.scope info))).tables
    have known₀ : info.tag <
        (s.update tag (Table.put Node.scopeKey (.scope info))).scopes := known
    refine (policy.stampParams_bounds ih known₀ below₀).mono ?_
    rintro _ s₁ ⟨bounded, frame⟩
    obtain ⟨stamped, frames⟩ := root_stamped (.pairlist tag params) separate frame
    refine ⟨⟨stamped, fun n member => ?_⟩, frames⟩
    rcases List.mem_cons.mp member with rfl | member
    · refine bordered_of_uniform stamped (fun c child => ?_) fun c _ => ?_
      · obtain ⟨p, listed, given⟩ := List.mem_filterMap.mp child
        exact (bounded p listed c given).stamped
      · rintro ⟨literal, parts, -⟩
        cases parts
    · obtain ⟨p, listed, d, given, inside⟩ := Node.mem_nodesOfParams.mp member
      exact (bounded p listed d given).below n inside
  | call tag callee args ihc iha => exact policy.call_bounds ihc iha

/-- An annotated function carries its scope at its parameter list and its body, and below them the
scopes change at the parts of function literals only. -/
theorem annotate_bounds {policy : Policy} {fn out : Function} {s after : Store σ}
    (ran : (policy.annotate fn).run s = (.ok out, after)) :
    ∃ info, out.scope = some info ∧ policy.Bounded after info out.params ∧
      policy.Bounded after info out.body := by
  obtain ⟨params, s₁, clonedParams, ran⟩ := Action.run_bind_eq_ok.mp ran
  obtain ⟨body, s₂, clonedBody, ran⟩ := Action.run_bind_eq_ok.mp ran
  obtain ⟨info, s₃, collected, ran⟩ := Action.run_bind_eq_ok.mp ran
  obtain ⟨_, s₄, noted, ran⟩ := Action.run_bind_eq_ok.mp ran
  obtain ⟨_, s₅, stampedParams, ran⟩ := Action.run_bind_eq_ok.mp ran
  obtain ⟨_, s₆, stampedBody, ran⟩ := Action.run_bind_eq_ok.mp ran
  obtain ⟨rfl, rfl⟩ := Action.ok_inj ran
  have copied := (Node.copied_of_clone clonedParams).2.append (Node.copied_of_clone clonedBody).2
  have separate : Separate s₂ (params.nodes ++ body.nodes) :=
    ⟨copied.fresh.nodup, fun n member => (copied.fresh.new n member).2⟩
  obtain ⟨names, declared⟩ : ∃ names, params.paramNames? = some names := by
    have list := isPairlist_of_collect collected
    cases params with
    | pairlist tag params => exact ⟨_, rfl⟩
    | atomic | symbol | primitive | call => cases list
  obtain ⟨made, counted, -, frame⟩ :=
    (policy.collect_ends params body declared [] s₂).of_ran collected
  have known : info.tag < s₃.scopes := by simp only [made, counted, Nat.lt_succ_self]
  have known₄ := Nat.lt_of_lt_of_le known (Action.scopes_le_of_run noted)
  have separate₄ := separate.later (Nat.le_trans frame.size (Action.size_le_of_run noted))
  obtain ⟨boundedParams, frameParams⟩ :=
    (policy.stamp_bounds params info s₄ separate₄.left known₄).of_ran stampedParams
  have separate₅ := separate₄.later frameParams.size
  have known₅ := Nat.lt_of_lt_of_le known₄ (Action.scopes_le_of_run stampedParams)
  obtain ⟨boundedBody, frameBody⟩ :=
    (policy.stamp_bounds body info s₅ separate₅.right known₅).of_ran stampedBody
  exact ⟨info, rfl, boundedParams.of_frame frameBody separate₅, boundedBody⟩

end Policy

end TreePass
