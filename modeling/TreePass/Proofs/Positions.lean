import TreePass.Node
import Mathlib.Data.List.Nodup

/-!
The positions of a tree. `nodes` lists what stands at them in preorder, the callee of a call before
its arguments; `bare` is the tree without the identities of its nodes.
-/

set_option autoImplicit false
set_option relaxedAutoImplicit false

namespace TreePass

namespace Node

variable {α : Type}

@[simp] theorem tag_atomic (t : Tag) (value : α) : (atomic t value).tag = t := rfl
@[simp] theorem tag_symbol (t : Tag) (name : String) : (symbol t name : Node α).tag = t := rfl
@[simp] theorem tag_primitive (t : Tag) (ref : Identity) : (primitive t ref : Node α).tag = t := rfl
@[simp] theorem tag_pairlist (t : Tag) (params : List (String × Option (Node α))) :
    (pairlist t params).tag = t := rfl
@[simp] theorem tag_call (t : Tag) (callee : Node α) (args : List (Option String × Node α)) :
    (call t callee args).tag = t := rfl

/-- Induction over a tree: a property that a call inherits from its callee and its arguments, and a
parameter list from its defaults, holds of every node. -/
theorem induction {motive : Node α → Prop}
    (atomic : ∀ tag value, motive (.atomic tag value))
    (symbol : ∀ tag name, motive (.symbol tag name))
    (primitive : ∀ tag ref, motive (.primitive tag ref))
    (pairlist : ∀ tag params, (∀ p ∈ params, ∀ d ∈ p.2, motive d) → motive (.pairlist tag params))
    (call : ∀ tag callee args, motive callee → (∀ a ∈ args, motive a.2) →
      motive (.call tag callee args)) (node : Node α) : motive node := by
  -- Lists of parameters and of arguments, their entries and optional defaults recurse on their own.
  refine @Node.rec α motive (fun params => ∀ p ∈ params, ∀ d ∈ p.2, motive d)
    (fun args => ∀ a ∈ args, motive a.2) (fun p => ∀ d ∈ p.2, motive d)
    (fun a => motive a.2) (fun d? => ∀ d ∈ d?, motive d)
    atomic symbol primitive pairlist call ?_ ?_ ?_ ?_ ?_ ?_ ?_ ?_ node
  · simp
  · intro p rest first others q member
    rcases List.mem_cons.mp member with rfl | member
    · exact first
    · exact others q member
  · simp
  · intro a rest first others b member
    rcases List.mem_cons.mp member with rfl | member
    · exact first
    · exact others b member
  · intro name d? holds
    exact holds
  · intro name a holds
    exact holds
  · simp
  · intro d holds e member
    obtain rfl := Option.mem_some_iff.mp member
    exact holds

theorem induction_children {motive : Node α → Prop}
    (step : ∀ node : Node α, (∀ c ∈ node.children, motive c) → motive node) (node : Node α) :
    motive node := by
  induction node using Node.induction with
  | atomic | symbol | primitive => exact step _ fun _ member => absurd member List.not_mem_nil
  | pairlist tag params ih =>
    refine step _ fun c member => ?_
    obtain ⟨p, listed, given⟩ := List.mem_filterMap.mp member
    exact ih p listed c given
  | call tag callee args ihc iha =>
    refine step _ fun c member => ?_
    rcases List.mem_cons.mp member with rfl | member
    · exact ihc
    · obtain ⟨a, listed, rfl⟩ := List.mem_map.mp member
      exact iha a listed

mutual

/-- The nodes at all positions, in preorder. -/
def nodes : Node α → List (Node α)
  | .atomic tag value => [.atomic tag value]
  | .symbol tag name => [.symbol tag name]
  | .primitive tag ref => [.primitive tag ref]
  | .pairlist tag params => .pairlist tag params :: nodesOfParams params
  | .call tag callee args => .call tag callee args :: (nodes callee ++ nodesOfArgs args)

def nodesOfParams : List (String × Option (Node α)) → List (Node α)
  | [] => []
  | (_, none) :: rest => nodesOfParams rest
  | (_, some d) :: rest => nodes d ++ nodesOfParams rest

def nodesOfArgs : List (Option String × Node α) → List (Node α)
  | [] => []
  | (_, a) :: rest => nodes a ++ nodesOfArgs rest

end

mutual

/-- The same tree with no identities. -/
def bare : Node α → Node α
  | .atomic _ value => .atomic 0 value
  | .symbol _ name => .symbol 0 name
  | .primitive _ ref => .primitive 0 ref
  | .pairlist _ params => .pairlist 0 (bareParams params)
  | .call _ callee args => .call 0 (bare callee) (bareArgs args)

def bareParams : List (String × Option (Node α)) → List (String × Option (Node α))
  | [] => []
  | (name, none) :: rest => (name, none) :: bareParams rest
  | (name, some d) :: rest => (name, some (bare d)) :: bareParams rest

def bareArgs : List (Option String × Node α) → List (Option String × Node α)
  | [] => []
  | (name, a) :: rest => (name, bare a) :: bareArgs rest

end

theorem mem_nodesOfArgs {args : List (Option String × Node α)} {node : Node α} :
    node ∈ nodesOfArgs args ↔ ∃ a ∈ args, node ∈ a.2.nodes := by
  induction args with
  | nil => simp [nodesOfArgs]
  | cons a rest ih =>
    obtain ⟨name, a⟩ := a
    simp [nodesOfArgs, ih]

theorem mem_nodesOfParams {params : List (String × Option (Node α))} {node : Node α} :
    node ∈ nodesOfParams params ↔ ∃ p ∈ params, ∃ d ∈ p.2, node ∈ d.nodes := by
  induction params with
  | nil => simp [nodesOfParams]
  | cons p rest ih =>
    obtain ⟨name, d | d⟩ := p <;> simp [nodesOfParams, ih]

theorem nodesOfArgs_eq (args : List (Option String × Node α)) :
    nodesOfArgs args = (args.map (·.2)).flatMap nodes := by
  induction args with
  | nil => rfl
  | cons a rest ih => rw [nodesOfArgs, ih, List.map_cons, List.flatMap_cons]

theorem nodesOfParams_eq (params : List (String × Option (Node α))) :
    nodesOfParams params = (defaults params).flatMap nodes := by
  induction params with
  | nil => rfl
  | cons p rest ih =>
    obtain ⟨name, d | d⟩ := p
    · exact ih
    · rw [nodesOfParams, ih]
      rfl

theorem nodes_eq (node : Node α) : node.nodes = node :: node.children.flatMap nodes := by
  cases node with
  | atomic | symbol | primitive => rfl
  | pairlist tag params => rw [nodes, nodesOfParams_eq]; rfl
  | call tag callee args => rw [nodes, nodesOfArgs_eq]; rfl

theorem self_mem_nodes (node : Node α) : node ∈ node.nodes := by
  cases node <;> simp [nodes]

theorem mem_nodes_iff {node n : Node α} :
    n ∈ node.nodes ↔ n = node ∨ ∃ c ∈ node.children, n ∈ c.nodes := by
  rw [nodes_eq, List.mem_cons, List.mem_flatMap]

theorem nodes_of_child {node child : Node α} (member : child ∈ node.children) :
    child.nodes ⊆ node.nodes := fun _ below => mem_nodes_iff.mpr (Or.inr ⟨child, member, below⟩)

theorem nodes_of_mem {root n : Node α} (member : n ∈ root.nodes) : n.nodes ⊆ root.nodes := by
  induction root using induction_children with
  | step root ih =>
    rcases mem_nodes_iff.mp member with rfl | ⟨c, child, below⟩
    · exact fun _ h => h
    · exact fun _ h => nodes_of_child child (ih c child below h)

theorem child_mem_nodes {root n child : Node α} (member : n ∈ root.nodes)
    (below : child ∈ n.children) : child ∈ root.nodes :=
  nodes_of_mem member (nodes_of_child below child.self_mem_nodes)

theorem arg_mem_nodes (tag : Tag) (callee : Node α) {args : List (Option String × Node α)}
    {a : Option String × Node α} (member : a ∈ args) :
    a.2.nodes ⊆ (call tag callee args).nodes := by
  intro n below
  simp only [nodes, List.mem_cons, List.mem_append, mem_nodesOfArgs]
  exact Or.inr (Or.inr ⟨a, member, below⟩)

private theorem nodesOfArgs_bareArgs {args : List (Option String × Node α)}
    (each : ∀ a ∈ args, a.2.bare.nodes = a.2.nodes.map bare) :
    nodesOfArgs (bareArgs args) = (nodesOfArgs args).map bare := by
  induction args with
  | nil => rfl
  | cons a rest ih =>
    obtain ⟨name, a⟩ := a
    simp only [bareArgs, nodesOfArgs, List.map_append, each (name, a) List.mem_cons_self,
      ih fun b h => each b (List.mem_cons_of_mem _ h)]

private theorem nodesOfParams_bareParams {params : List (String × Option (Node α))}
    (each : ∀ p ∈ params, ∀ d ∈ p.2, d.bare.nodes = d.nodes.map bare) :
    nodesOfParams (bareParams params) = (nodesOfParams params).map bare := by
  induction params with
  | nil => rfl
  | cons p rest ih =>
    have later := ih fun q h => each q (List.mem_cons_of_mem _ h)
    obtain ⟨name, d | d⟩ := p
    · exact later
    · simp only [bareParams, nodesOfParams, List.map_append, later,
        each (name, some d) List.mem_cons_self d rfl]

theorem nodes_bare (node : Node α) : node.bare.nodes = node.nodes.map bare := by
  induction node using Node.induction with
  | atomic | symbol | primitive => rfl
  | pairlist tag params ih => simp only [bare, nodes, List.map_cons, nodesOfParams_bareParams ih]
  | call tag callee args ihc iha =>
    simp only [bare, nodes, List.map_cons, List.map_append, ihc, nodesOfArgs_bareArgs iha]

end Node

end TreePass
