import TreePass.Proofs.Scoping.Structure
import TreePass.Proofs.Turns.Threading

/-!
Places in trees. Every turn of a run is about the node that stands at its place in the tree. In
trees of one structure the nodes at one place are of one structure, and they stand in stacks of one
structure.
-/

set_option autoImplicit false
set_option relaxedAutoImplicit false

namespace TreePass

variable {σ ρ : Type}

open Traversal (traversed)

namespace Node

theorem traversed_bare (node : Expr) : traversed node.bare = (traversed node).map bare := by
  cases node with
  | atomic | symbol | primitive => rfl
  | pairlist tag params =>
    induction params with
    | nil => rfl
    | cons p rest ih =>
      obtain ⟨name, d | d⟩ := p
      · exact ih
      · exact congrArg (d.bare :: ·) ih
  | call tag callee args =>
    induction args with
    | nil => rfl
    | cons a rest ih => exact congrArg (a.2.bare :: ·) ih

/-- The expression at a place below a node: which of the visited children to take on each step
down. -/
def at? : Position → Expr → Option Expr
  | [], node => some node
  | i :: place, node => (traversed node)[i]?.bind (at? place)

theorem at?_bare (place : Position) (node : Expr) :
    at? place node.bare = (at? place node).map bare := by
  induction place generalizing node with
  | nil => rfl
  | cons i place ih =>
    rw [at?, at?, traversed_bare, List.getElem?_map]
    cases (traversed node)[i]? with
    | none => rfl
    | some child => exact ih child

theorem at?_append (place : Position) (i : Nat) (node : Expr) :
    at? (place ++ [i]) node = (at? place node).bind fun below => (traversed below)[i]? := by
  induction place generalizing node with
  | nil =>
    rw [List.nil_append, at?, at?, Option.bind_some]
    cases (traversed node)[i]? <;> rfl
  | cons j place ih =>
    rw [List.cons_append, at?, at?, Option.bind_assoc]
    exact congrArg _ (funext ih)

private theorem kind_bare {α : Type} (node : Node α) : node.bare.kind = node.kind := by
  cases node <;> rfl

theorem kind_eq_of_bare_eq {node other : Expr} (same : node.bare = other.bare) :
    node.kind = other.kind := by
  rw [← kind_bare, same, kind_bare]

end Node

namespace Policy

variable {policy : Policy}

private theorem child_standing {stack : List Literal} {node child : Expr} {i : Nat}
    (found : (traversed node)[i]? = some child) :
    (child, if i < policy.partCount node then policy.pushLiteral stack node else stack) ∈
      policy.standing stack node := by
  cases node with
  | atomic | symbol | primitive => cases found
  | pairlist tag params =>
    obtain ⟨p, listed, given⟩ := List.mem_filterMap.mp (List.mem_of_getElem? found)
    have no_parts : policy.partCount (.pairlist tag params) = 0 := rfl
    rw [no_parts, if_neg (Nat.not_lt_zero i), standing]
    refine List.mem_cons_of_mem _ (mem_standingParams.mpr ⟨p, listed, child, given, ?_⟩)
    exact self_standing _ _
  | call tag callee args =>
    have found : (args.map (·.2))[i]? = some child := found
    rw [List.getElem?_map] at found
    obtain ⟨a, listed, rfl⟩ := Option.map_eq_some_iff.mp found
    simp only [standing, List.mem_cons, List.mem_append, mem_standingArgs]
    refine Or.inr (Or.inr ?_)
    split_ifs with part
    · have taken : (args.take (policy.partCount (.call tag callee args)))[i]? = some a := by
        rw [List.getElem?_take_of_lt part, listed]
      exact Or.inl ⟨a, List.mem_of_getElem? taken, self_standing _ _⟩
    · have dropped : (args.drop (policy.partCount (.call tag callee args)))[
          i - policy.partCount (.call tag callee args)]? = some a := by
        rw [List.getElem?_drop, Nat.add_sub_cancel' (Nat.not_lt.mp part), listed]
      exact Or.inr ⟨a, List.mem_of_getElem? dropped, self_standing _ _⟩

theorem exists_standing_at {stack stack' : List Literal}
    (alike : stack.map Literal.bare = stack'.map Literal.bare) {root root' n n' : Expr}
    (same : root.bare = root'.bare) {place : Position} (found : Node.at? place root = some n)
    (found' : Node.at? place root' = some n') :
    ∃ inner inner', (n, inner) ∈ policy.standing stack root ∧
      (n', inner') ∈ policy.standing stack' root' ∧
        inner.map Literal.bare = inner'.map Literal.bare := by
  induction place generalizing stack stack' root root' with
  | nil =>
    obtain rfl := Option.some.inj found
    obtain rfl := Option.some.inj found'
    exact ⟨stack, stack', self_standing _ _, self_standing _ _, alike⟩
  | cons i place ih =>
    obtain ⟨child, here, further⟩ := Option.bind_eq_some_iff.mp found
    obtain ⟨child', here', further'⟩ := Option.bind_eq_some_iff.mp found'
    have pushed : (policy.pushLiteral stack root).map Literal.bare =
        (policy.pushLiteral stack' root').map Literal.bare := by
      rw [← pushLiteral_bare, ← pushLiteral_bare, alike, same]
    have counted : policy.partCount root = policy.partCount root' := by
      rw [← partCount_bare, same, partCount_bare]
    have children : child.bare = child'.bare := by
      have bare := congrArg (·[i]?) (congrArg traversed same)
      simpa [Node.traversed_bare, here, here'] using bare
    have entered : (if i < policy.partCount root then policy.pushLiteral stack root
          else stack).map Literal.bare =
        (if i < policy.partCount root' then policy.pushLiteral stack' root'
          else stack').map Literal.bare := by
      rw [counted]
      split_ifs
      · exact pushed
      · exact alike
    obtain ⟨inner, inner', standing, standing', bare⟩ := ih entered children further further'
    exact ⟨inner, inner', standing_subset (child_standing here) standing,
      standing_subset (child_standing here') standing', bare⟩

end Policy

theorem Traversal.comesTo_of_at? {place : Position} {root n : Expr}
    (found : Node.at? place root = some n) : ComesTo root n := by
  induction place generalizing root with
  | nil =>
    obtain rfl := Option.some.inj found
    exact .self
  | cons i place ih =>
    obtain ⟨child, here, further⟩ := Option.bind_eq_some_iff.mp found
    exact .under (List.mem_of_getElem? here) (ih further)

namespace Traversal

variable {t : Traversal σ} {shape : Shape σ ρ} {first first' : Entry σ}
  {turns turns' : List (Turn σ)} {ran ran' : Except Fault ρ × Store σ}

theorem Arrives.is_child {e : Entry σ} (arrives : t.Arrives first turns e)
    (root : first.place = []) {place : Position} {i : Nat} (below : e.place = place ++ [i]) :
    ∃ down ∈ turns, down.slot = .topdown ∧ down.place = place ∧
      (traversed down.entry.node)[i]? = some e.node := by
  obtain ⟨down, listed, ⟨topdown, _, -, j, child, entered, -, -⟩, above⟩ :=
    arrives.from_above root below
  rw [below, above, Nat.zero_add] at entered
  obtain rfl : i = j := by simpa using entered
  exact ⟨down, listed, topdown, above, child⟩

theorem Course.node_at (course : t.Course shape first turns ran) (root : first.place = [])
    {turn : Turn σ} (member : turn ∈ turns) :
    Node.at? turn.place first.node = some turn.entry.node := by
  generalize placed : turn.place = place
  induction place using List.reverseRecOn generalizing turn with
  | nil =>
    rw [(course.accounted turn member).2.at_root placed]
    rfl
  | append_singleton place i ih =>
    obtain ⟨down, listed, -, above, child⟩ :=
      (course.accounted turn member).2.is_child root placed
    rw [Node.at?_append, ih listed above, Option.bind_some, child]

theorem Course.bare_eq (course : t.Course shape first turns ran)
    (course' : t.Course shape first' turns' ran') (root : first.place = [])
    (root' : first'.place = []) (same : first.node.bare = first'.node.bare) {turn turn' : Turn σ}
    (member : turn ∈ turns) (member' : turn' ∈ turns') (together : turn.place = turn'.place) :
    turn.entry.node.bare = turn'.entry.node.bare := by
  have found := course.node_at root member
  have found' := course'.node_at root' member'
  have bare := Node.at?_bare turn.place first.node
  rw [same, Node.at?_bare, together, found', ← together, found] at bare
  exact (Option.some.inj bare).symm

end Traversal

end TreePass
