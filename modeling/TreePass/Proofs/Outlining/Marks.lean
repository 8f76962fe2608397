import TreePass.Outline
import TreePass.Proofs.Scoping.Boundaries

/-!
The outline of an annotated function has one line for every node, in preorder. Below its root a line
shows a scope exactly where its node is the parameter list or the body of a function literal, and
the scope shown is the one that the literal opens.
-/

set_option autoImplicit false
set_option relaxedAutoImplicit false

namespace TreePass

variable {σ : Type}

namespace Console.Tree

mutual

/-- The labels of a tree, that of a node in front of those of its branches. -/
def labels : Tree → List String
  | .node label branches => label :: branchLabels branches

def branchLabels : List Tree → List String
  | [] => []
  | tree :: rest => labels tree ++ branchLabels rest

end

end Console.Tree

namespace Outline

private theorem run_scopeOf {s : Store σ} {node : Expr} {scope : Scope}
    (stamped : s.stamp? node = some (.scope scope)) :
    (scopeOf node).run s = (.ok (some scope), s) := by
  have read := Node.run_scope? node s
  rw [stamped] at read
  exact Action.run_bind_of_ok read

private theorem ofArgs_ends (Line : Expr → String → Prop) {outer : Option Scope} {s : Store σ}
    {args : List (Option String × Expr)}
    (each : ∀ a ∈ args, (ofNode outer a.2).Ends s fun tree s' =>
      s' = s ∧ List.Forall₂ Line a.2.nodes tree.labels) :
    (ofArgs outer args).Ends s fun trees s' =>
      s' = s ∧ List.Forall₂ Line (Node.nodesOfArgs args) (Console.Tree.branchLabels trees) := by
  induction args with
  | nil => exact Action.ends_pure ⟨rfl, .nil⟩
  | cons a rest ih =>
    obtain ⟨name, a⟩ := a
    refine Action.Ends.bind (each (name, a) List.mem_cons_self) ?_
    rintro tree s₁ ⟨rfl, first⟩
    refine Action.Ends.bind (ih fun b h => each b (List.mem_cons_of_mem _ h)) ?_
    rintro trees s₂ ⟨rfl, later⟩
    exact Action.ends_pure ⟨rfl, List.rel_append first later⟩

private theorem ofParams_ends (Line : Expr → String → Prop) {outer : Option Scope} {s : Store σ}
    {params : List (String × Option Expr)}
    (each : ∀ p ∈ params, ∀ d ∈ p.2, (ofNode outer d).Ends s fun tree s' =>
      s' = s ∧ List.Forall₂ Line d.nodes tree.labels) :
    (ofParams outer params).Ends s fun trees s' =>
      s' = s ∧ List.Forall₂ Line (Node.nodesOfParams params) (Console.Tree.branchLabels trees) := by
  induction params with
  | nil => exact Action.ends_pure ⟨rfl, .nil⟩
  | cons p rest ih =>
    have later := ih fun q h => each q (List.mem_cons_of_mem _ h)
    obtain ⟨name, d | d⟩ := p
    · exact later
    · refine Action.Ends.bind (each (name, some d) List.mem_cons_self d rfl) ?_
      rintro tree s₁ ⟨rfl, first⟩
      refine Action.Ends.bind later ?_
      rintro trees s₂ ⟨rfl, others⟩
      exact Action.ends_pure ⟨rfl, List.rel_append first others⟩

/-- All nodes of a tree have scopes, and below its root each has the line that can be told from its
scope and the scope above it. -/
structure Lined (Line : Expr → String → Prop) (s : Store σ) (own : Scope) (root : Expr) : Prop where
  stamped : s.stamp? root = some (.scope own)
  below : ∀ n ∈ root.nodes, ∃ scope : Scope, s.stamp? n = some (.scope scope) ∧
    ∀ c ∈ n.children, ∃ inner : Scope, s.stamp? c = some (.scope inner) ∧
      Line c (labelWithin (some scope) (some inner) c)

theorem Lined.child {Line : Expr → String → Prop} {s : Store σ} {own : Scope} {root c : Expr}
    (lined : Lined Line s own root) (child : c ∈ root.children) :
    ∃ inner, Line c (labelWithin (some own) (some inner) c) ∧ Lined Line s inner c := by
  obtain ⟨scope, stamped, lines⟩ := lined.below root root.self_mem_nodes
  obtain rfl := Value.scope.inj (Option.some.inj (stamped.symm.trans lined.stamped))
  obtain ⟨inner, stampedChild, line⟩ := lines c child
  refine ⟨inner, line, stampedChild, fun n member => ?_⟩
  exact lined.below n (Node.nodes_of_child child member)

theorem ofNode_ends {Line : Expr → String → Prop} {s : Store σ} {node : Expr}
    {outer : Option Scope} {own : Scope} (lined : Lined Line s own node)
    (first : Line node (labelWithin outer (some own) node)) :
    (ofNode outer node).Ends s fun tree s' =>
      s' = s ∧ List.Forall₂ Line node.nodes tree.labels := by
  induction node using Node.induction generalizing outer own with
  | atomic | symbol | primitive =>
    exact Action.ends_bind_of_run (run_scopeOf lined.stamped)
      (Action.ends_pure ⟨rfl, .cons first .nil⟩)
  | pairlist tag params ih =>
    refine Action.ends_bind_of_run (run_scopeOf lined.stamped) ?_
    refine Action.Ends.bind (ofParams_ends Line fun p listed d given => ?_) ?_
    · obtain ⟨inner, line, below⟩ := lined.child (List.mem_filterMap.mpr ⟨p, listed, given⟩)
      exact ih p listed d given below line
    · rintro trees s' ⟨rfl, lines⟩
      exact Action.ends_pure ⟨rfl, .cons first lines⟩
  | call tag callee args ihc iha =>
    refine Action.ends_bind_of_run (run_scopeOf lined.stamped) ?_
    obtain ⟨inner, line, below⟩ := lined.child List.mem_cons_self
    refine Action.Ends.bind (ihc below line) ?_
    rintro tree s' ⟨rfl, linesCallee⟩
    refine Action.Ends.bind (ofArgs_ends Line fun a listed => ?_) ?_
    · obtain ⟨inner, line, below⟩ :=
        lined.child (List.mem_cons_of_mem callee (List.mem_map_of_mem listed))
      exact iha a listed below line
    · rintro trees s' ⟨rfl, linesArgs⟩
      exact Action.ends_pure ⟨rfl, .cons first (List.rel_append linesCallee linesArgs)⟩

/-- The line of a node below the root of an outline. It shows a scope exactly if the node is the
parameter list or the body of a function literal: then it shows the scope that the node carries,
with the names that the literal assigns, and those that it or a function around it binds. -/
inductive Line (policy : Policy) (fn : Function) (s : Store σ) (n : Expr) : String → Prop
  | plain (inside : ∀ call ∈ fn.nodes, ¬ policy.IsPart call n) : Line policy fn s n (label n)
  | bounded {call : Expr} {outer : List Literal} {literal : Literal} {scope : Scope}
      (placed : (call, outer) ∈ policy.placement fn)
      (parts : policy.literalParts? call = some literal) (part : n ∈ literal.parts)
      (stamped : s.stamp? n = some (.scope scope)) (fits : scope.Fits policy (literal :: outer)) :
      Line policy fn s n (label n ++ "  " ++ scopeLabel scope)

section

variable {policy : Policy} {fn out : Function} {before after : Store σ}
  (annotated : policy.Annotated fn before out after)

include annotated

private theorem nodes_nodup : out.nodes.Nodup := by
  obtain ⟨copied, made, -⟩ := annotated.written
  exact List.Nodup.of_map _ made.fresh.nodup

private theorem part_not_child {root n : Expr} (whole : root = out.params ∨ root = out.body)
    (member : n ∈ out.nodes) : root ∉ n.children := by
  have distinct := nodes_nodup annotated
  rw [Function.nodes] at distinct member
  obtain ⟨inParams, inBody, apart⟩ := List.nodup_append'.mp distinct
  intro child
  rcases List.mem_append.mp member with inside | inside <;> rcases whole with rfl | rfl
  · exact Node.root_not_child inParams inside child
  · exact apart (Node.child_mem_nodes inside child) out.body.self_mem_nodes
  · exact apart out.params.self_mem_nodes (Node.child_mem_nodes inside child)
  · exact Node.root_not_child inBody inside child

private theorem above_unique {p q c : Expr} (first : p ∈ out.nodes) (second : q ∈ out.nodes)
    (below : c ∈ p.children) (below' : c ∈ q.children) : p = q := by
  have distinct := nodes_nodup annotated
  rw [Function.nodes] at distinct first second
  obtain ⟨inParams, inBody, apart⟩ := List.nodup_append'.mp distinct
  rcases List.mem_append.mp first with inside | inside <;>
    rcases List.mem_append.mp second with inside' | inside'
  · exact Node.parent_unique inParams inside inside' below below'
  · exact (apart (Node.child_mem_nodes inside below) (Node.child_mem_nodes inside' below')).elim
  · exact (apart (Node.child_mem_nodes inside' below') (Node.child_mem_nodes inside below)).elim
  · exact Node.parent_unique inBody inside inside' below below'

private theorem line_of_child {p c : Expr} {own inner : Scope} (member : p ∈ out.nodes)
    (child : c ∈ p.children) (stamped : after.stamp? c = some (.scope inner))
    (border : inner.tag = own.tag ↔ ¬ policy.IsPart p c) :
    Line policy out after c (labelWithin (some own) (some inner) c) := by
  simp only [labelWithin, Option.map_some, Option.some.injEq]
  by_cases part : policy.IsPart p c
  · have different : own.tag ≠ inner.tag := fun same => border.mp same.symm part
    rw [if_neg different]
    obtain ⟨literal, parts, isPart⟩ := part
    rw [← policy.placement_fst out] at member
    obtain ⟨⟨p, outer⟩, placed, rfl⟩ := List.mem_map.mp member
    have placedPart := policy.standing_subset_placement placed (Policy.part_standing parts isPart)
    obtain ⟨scope, stamped', fits⟩ := annotated.stamp_fits placedPart
    obtain rfl := Value.scope.inj (Option.some.inj (stamped.symm.trans stamped'))
    exact .bounded placed parts isPart stamped fits
  · rw [if_pos (border.mpr part).symm]
    refine .plain fun call listed other => part ?_
    rwa [above_unique annotated member listed child (policy.mem_children_of_isPart other)]

private theorem lined_of_bounded {info : Scope} {root : Expr} (inside : root.nodes ⊆ out.nodes)
    (bounded : policy.Bounded after info root) :
    Lined (Line policy out after) after info root where
  stamped := bounded.stamped
  below n member := by
    obtain ⟨own, stamped, borders⟩ := bounded.below n member
    refine ⟨own, stamped, fun c child => ?_⟩
    obtain ⟨inner, stampedChild, border⟩ := borders c child
    exact ⟨inner, stampedChild, line_of_child annotated (inside member) child stampedChild border⟩

private theorem line_of_whole {info : Scope} {root : Expr}
    (whole : root = out.params ∨ root = out.body) :
    Line policy out after root (labelWithin (some info) (some info) root) := by
  rw [labelWithin, if_pos (Option.map_some ..)]
  exact .plain fun call listed part =>
    part_not_child annotated whole listed (policy.mem_children_of_isPart part)

end

/-- The outline of an annotated function shows exactly the boundaries of scopes. Below its root it
has one line for every node, in preorder; a line shows a scope if its node is the parameter list or
the body of a function literal, wherever this stands and whatever the scope holds, and else none. -/
theorem outline_shows_boundaries (policy : Policy) (fn : Function)
    (list : fn.params.isPairlist = true) (s : Store σ) :
    (policy.annotate fn).Ends s fun out after =>
      policy.Annotated fn s out after ∧
      ∃ info, out.scope = some info ∧
        (ofFunction (functionLabel out info) out).Ends after fun tree _ =>
          ∃ lines, tree.labels = functionLabel out info :: lines ∧
            List.Forall₂ (Line policy out after) out.nodes lines := by
  obtain ⟨out, after, ran, annotated⟩ := policy.annotate_ends list s
  obtain ⟨info, own, boundedParams, boundedBody⟩ := Policy.annotate_bounds ran
  refine .of_run ran ⟨annotated, info, own, ?_⟩
  have ofParams := lined_of_bounded annotated (List.subset_append_left _ _) boundedParams
  have ofBody := lined_of_bounded annotated (List.subset_append_right _ _) boundedBody
  rw [ofFunction, own]
  refine Action.Ends.bind (ofNode_ends ofParams (line_of_whole annotated (Or.inl rfl))) ?_
  rintro params s₁ ⟨rfl, linesParams⟩
  refine Action.Ends.bind (ofNode_ends ofBody (line_of_whole annotated (Or.inr rfl))) ?_
  rintro body s₂ ⟨rfl, linesBody⟩
  refine Action.ends_pure ⟨_, rfl, ?_⟩
  simp only [Console.Tree.branchLabels, List.append_nil]
  exact List.rel_append linesParams linesBody

/-- A function without parameters whose body is a function literal, without parameters, whose body
is a function literal of `x`, called on nothing: no scope but the last binds anything. -/
def nestedLiterals : Function where
  params := .pairlist 0 []
  body :=
    .call 1 (.symbol 2 "function") [(none, .pairlist 3 []),
      (none, .call 4 (.call 5 (.symbol 6 "function") [(none, .pairlist 7 [("x", none)]),
        (none, .symbol 8 "x")]) [])]
  name := some "f"

def nestedOutline : Action Unit Console.Tree := do
  let out ← ({} : Policy).annotate nestedLiterals
  ofFunction (functionLabel out (out.scope.getD Scope.empty)) out

def nestedLines : List String :=
  ["[bold]f[/bold]()  [scope]scope[/scope] assigned=[] bound=[]",
    "pairlist ()",
    "call [symbol]function[/symbol]",
    "symbol [symbol]function[/symbol]",
    "pairlist ()  [scope]scope[/scope] assigned=[] bound=[]",
    "call [symbol]<expr>[/symbol]  [scope]scope[/scope] assigned=[] bound=[]",
    "call [symbol]function[/symbol]",
    "symbol [symbol]function[/symbol]",
    "pairlist (x)  [scope]scope[/scope] assigned=[] bound=['x']",
    "symbol [symbol]x[/symbol]  [scope]scope[/scope] assigned=[] bound=['x']"]

/-- The middle scope is shown although it holds what the scope above it holds. -/
theorem outline_shows_boundaries_nestedLiterals :
    nestedLiterals.params.isPairlist = true ∧
    ((({} : Policy).annotate nestedLiterals).Ends (Store.initial ()) fun out after =>
      ∃ info, out.scope = some info ∧
        (ofFunction (functionLabel out info) out).Ends after fun tree _ =>
          ∃ lines, tree.labels = functionLabel out info :: lines ∧
            List.Forall₂ (Line {} out after) out.nodes lines) ∧
    nestedOutline.Ends (Store.initial ()) fun tree _ => tree.labels = nestedLines := by
  refine ⟨rfl, ?_, ?_⟩
  · refine (outline_shows_boundaries {} nestedLiterals rfl (Store.initial ())).mono ?_
    rintro out after ⟨-, shown⟩
    exact shown
  · have check : nestedOutline.Ends (Store.initial ()) fun tree _ =>
        decide (tree.labels = nestedLines) = true :=
      Action.ends_of_check _ (by decide +kernel)
    exact check.mono fun tree _ same => of_decide_eq_true same

end Outline

end TreePass
