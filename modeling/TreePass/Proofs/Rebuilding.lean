import TreePass.Proofs.Comparing
import TreePass.Proofs.Dispatch.Exactness

/-!
Rebuilding nodes. A rebuilt node is the old one refilled, and starts with the metadata of the old
one in a table of its own. So the children of a node and the rebuilding of the node form a lens, and
a copy of a tree is the tree rebuilt around copies of its children.
-/

set_option autoImplicit false
set_option relaxedAutoImplicit false

namespace TreePass

namespace Node

variable {σ : Type}

/-- What a node made of another one is: it holds what that one holds, around other children, and
has its metadata in a table of its own. -/
structure Rebuilt (s s' : Store σ) (node : Expr) (fresh : List Expr) (made : Expr) : Prop where
  kind : made.kind = node.kind
  trunk : made.trunk = node.trunk
  children : made.children = fresh
  table : s'.table made.tag = s.table node.tag
  /-- The table was not there before. -/
  new : s.tables.size ≤ made.tag ∧ made.tag < s'.tables.size
  /-- Whatever is done to one of the two tables, the other one stays. -/
  separate : ∀ change : Table → Table,
    (s'.update made.tag change).table node.tag = s.table node.tag ∧
      (s'.update node.tag change).table made.tag = s.table node.tag
  frame : Store.Frame [] s s'

private theorem Rebuilt.of_new {node made : Expr} {s s' : Store σ} {fresh : List Expr}
    (known : node.tag < s.tables.size) (trunk : made.trunk = node.trunk)
    (children : made.children = fresh) (table : s'.table made.tag = s.table node.tag)
    (new : s.tables.size ≤ made.tag ∧ made.tag < s'.tables.size) (frame : Store.Frame [] s s') :
    Rebuilt s s' node fresh made := by
  have apart : node.tag ≠ made.tag := Nat.ne_of_lt (Nat.lt_of_lt_of_le known new.1)
  have kept : s'.table node.tag = s.table node.tag :=
    frame.table _ known List.not_mem_nil
  refine ⟨kind_eq_of_trunk_eq trunk, trunk, children, table, new, fun change => ?_, frame⟩
  constructor
  · rw [Store.table_update_of_ne _ _ apart, kept]
  · rw [Store.table_update_of_ne _ _ apart.symm, table]

private theorem rebuilt_refill {node : Expr} {s : Store σ} {fresh : List Expr}
    (known : node.tag < s.tables.size) (fits : fresh.length = node.children.length) :
    Rebuilt s (s.push (s.table node.tag)) node fresh (refill s.tables.size node fresh) := by
  refine .of_new known (trunk_refill _ fits) (children_refill _ fits) ?_ ?_ (s.frame_push _)
  · rw [tag_refill, Store.table_push_self]
  · rw [tag_refill, Store.size_push]
    exact ⟨Nat.le_refl _, Nat.lt_succ_self _⟩

theorem Rebuilt.trans {node between twice : Expr} {s s₁ s₂ : Store σ} {first second : List Expr}
    (known : node.tag < s.tables.size) (once : Rebuilt s s₁ node first between)
    (again : Rebuilt s₁ s₂ between second twice) : Rebuilt s s₂ node second twice := by
  have trunk : twice.trunk = node.trunk := again.trunk.trans once.trunk
  have table : s₂.table twice.tag = s.table node.tag := again.table.trans once.table
  have grown : s.tables.size ≤ twice.tag := Nat.le_trans once.frame.size again.new.1
  exact .of_new known trunk again.children table ⟨grown, again.new.2⟩
    (once.frame.trans again.frame)

private theorem equal_of_children_eq {node other : Expr} (trunk : node.trunk = other.trunk)
    (children : node.children = other.children) (steady : node.Steady) :
    node.equal other = true := by
  refine equal_of_alike trunk ?_ steady
  rw [children]
  exact List.forall₂_same.mpr fun child _ => Alike.self child

private theorem cloneParams_eq_refill (params : List (String × Option Expr)) (s : Store σ) :
    ∃ copies s', ((defaults params).mapM' clone).run s = (.ok copies, s') ∧
      copies.length = (defaults params).length ∧
      (cloneParams params).run s = (.ok (refillParams params copies), s') := by
  induction params generalizing s with
  | nil => exact ⟨[], s, rfl, rfl, rfl⟩
  | cons param rest ih =>
    obtain ⟨name, d | d⟩ := param
    · obtain ⟨copies, s', below, length, cloned⟩ := ih s
      exact ⟨copies, s', below, length, Action.run_bind_of_ok cloned⟩
    · obtain ⟨copy, s₁, made, -⟩ := d.clone_ends s
      obtain ⟨copies, s', below, length, cloned⟩ := ih s₁
      refine ⟨copy :: copies, s', ?_, congrArg Nat.succ length, ?_⟩
      · exact (Action.run_bind_of_ok made).trans (Action.run_bind_of_ok below)
      · exact (Action.run_bind_of_ok made).trans (Action.run_bind_of_ok cloned)

private theorem cloneArgs_eq_refill (args : List (Option String × Expr)) (s : Store σ) :
    ∃ copies s', ((args.map (·.2)).mapM' clone).run s = (.ok copies, s') ∧
      copies.length = args.length ∧
      (cloneArgs args).run s = (.ok (refillArgs args copies), s') := by
  induction args generalizing s with
  | nil => exact ⟨[], s, rfl, rfl, rfl⟩
  | cons arg rest ih =>
    obtain ⟨name, a⟩ := arg
    obtain ⟨copy, s₁, made, -⟩ := a.clone_ends s
    obtain ⟨copies, s', below, length, cloned⟩ := ih s₁
    refine ⟨copy :: copies, s', ?_, congrArg Nat.succ length, ?_⟩
    · exact (Action.run_bind_of_ok made).trans (Action.run_bind_of_ok below)
    · exact (Action.run_bind_of_ok made).trans (Action.run_bind_of_ok cloned)

private theorem run_clone (node : Expr) (s : Store σ) :
    node.clone.run s = (node.children.mapM' clone >>= node.withChildren).run s := by
  cases node with
  | atomic | symbol | primitive => rfl
  | pairlist tag params =>
    obtain ⟨copies, s', below, fits, cloned⟩ := cloneParams_eq_refill params s
    have fits' : copies.length = (pairlist tag params).children.length := fits
    calc (clone (.pairlist tag params)).run s
        = (.ok (.pairlist s'.tables.size (refillParams params copies)), s'.push (s'.table tag)) :=
          Action.run_bind_of_ok cloned
      _ = ((pairlist tag params).withChildren copies).run s' := by
          rw [run_withChildren_of_fits fits']
          rfl
      _ = _ := (Action.run_bind_of_ok below).symm
  | call tag callee args =>
    obtain ⟨copy, s₁, made, -⟩ := callee.clone_ends s
    obtain ⟨copies, s', below, fits, cloned⟩ := cloneArgs_eq_refill args s₁
    have fits' : (copy :: copies).length = (call tag callee args).children.length := by
      simpa [children] using fits
    have all : ((call tag callee args).children.mapM' clone).run s = (.ok (copy :: copies), s') :=
      (Action.run_bind_of_ok made).trans (Action.run_bind_of_ok below)
    calc (clone (.call tag callee args)).run s
        = (.ok (.call s'.tables.size copy (refillArgs args copies)), s'.push (s'.table tag)) :=
          (Action.run_bind_of_ok made).trans (Action.run_bind_of_ok cloned)
      _ = ((call tag callee args).withChildren (copy :: copies)).run s' := by
          rw [run_withChildren_of_fits fits']
          rfl
      _ = _ := (Action.run_bind_of_ok all).symm

/-- A copy has the structure and the metadata of its original at every position, in nodes of its
own, and equals it unless a literal does not equal itself. -/
theorem clone_is_copy (node : Expr) {s : Store σ} (known : s.Knows node) :
    node.clone.Ends s fun copy s' =>
      copy.bare = node.bare ∧ Fresh s s' copy.nodes ∧ Store.Frame [] s s' ∧
        copy.nodes.map (fun n => s'.table n.tag) = node.nodes.map (fun n => s.table n.tag) ∧
        ((∀ n ∈ node.nodes, n.Steady) → copy.equal node = true) := by
  refine (node.clone_ends s).mono ?_
  rintro copy s' ⟨structure_kept, copied⟩
  refine ⟨structure_kept, copied.fresh, copied.frame, copied.carries known, fun steady => ?_⟩
  exact (coincides_of_bare_eq structure_kept).2 steady

/-- Children and rebuilding form a lens: a number of children that does not fit is refused, what is
put in is found, what is found can be put back, and of two changes the last one counts. A copy is
what rebuilding around copies of the children gives. -/
theorem withChildren_is_lens (node : Expr) {s : Store σ} (known : s.Knows node) :
    (∀ fresh : List Expr, fresh.length ≠ node.children.length →
      (node.withChildren fresh).run s = (.error (node.arityFault fresh.length), s)) ∧
    (∀ fresh : List Expr, fresh.length = node.children.length →
      (node.withChildren fresh).Ends s fun made s' => Rebuilt s s' node fresh made) ∧
    ((node.withChildren node.children).Ends s fun made _ =>
      made.bare = node.bare ∧ (node.Steady → made.equal node = true)) ∧
    (∀ first second : List Expr, first.length = node.children.length →
      second.length = node.children.length →
      (node.withChildren first).Ends s fun between s₁ =>
        (between.withChildren second).Ends s₁ fun twice s₂ =>
          (node.withChildren second).Ends s₂ fun once _ =>
            Rebuilt s s₂ node second twice ∧ twice.bare = once.bare ∧
              (node.Steady → twice.equal once = true)) ∧
    node.clone.run s = (node.children.mapM' clone >>= node.withChildren).run s ∧
    (node.clone.Ends s fun copy s' =>
      copy.bare = node.bare ∧ Fresh s s' copy.nodes ∧ Store.Frame [] s s' ∧
        copy.nodes.map (fun n => s'.table n.tag) = node.nodes.map (fun n => s.table n.tag) ∧
        ((∀ n ∈ node.nodes, n.Steady) → copy.equal node = true)) := by
  have present : node.tag < s.tables.size := known node node.self_mem_nodes
  refine ⟨?_, ?_, ?_, ?_, node.run_clone s, node.clone_is_copy known⟩
  · intro fresh unfit
    exact run_withChildren_of_unfit unfit s
  · intro fresh fits
    exact .of_run (run_withChildren_of_fits fits s) (rebuilt_refill present fits)
  · have trunk : (refill s.tables.size node node.children).trunk = node.trunk :=
      trunk_refill _ rfl
    refine .of_run (run_withChildren_of_fits rfl s) ⟨?_, fun steady => ?_⟩
    · rw [bare_refill _ node.tag, refill_children]
    · exact equal_of_children_eq trunk (children_refill _ rfl)
        ((steady_iff_of_trunk_eq trunk).mpr steady)
  · intro first second fits fits'
    have once := rebuilt_refill present fits
    have room : second.length = (refill s.tables.size node first).children.length := by
      rw [once.children, fits, fits']
    have again := rebuilt_refill once.new.2 room
    have last (tag : Tag) : refill tag (refill s.tables.size node first) second =
        refill tag node second := refill_refill tag _ fits fits'
    refine .of_run (run_withChildren_of_fits fits s)
      (.of_run (run_withChildren_of_fits room _)
        (.of_run (run_withChildren_of_fits fits' _)
          ⟨once.trans present again, ?_, fun steady => ?_⟩))
    · rw [last]
      exact bare_refill _ _ node second
    · rw [last]
      have trunk (tag : Tag) : (refill tag node second).trunk = node.trunk :=
        trunk_refill tag fits'
      refine equal_of_children_eq ((trunk _).trans (trunk _).symm) ?_
        ((steady_iff_of_trunk_eq (trunk _)).mpr steady)
      rw [children_refill _ fits', children_refill _ fits']

/-- A call of `f` on parameters of which the second has a default, a list with a NaN in it, and on
the argument `k`. -/
def callWithDefault : Expr :=
  .call 0 (.symbol 1 "f") [
    (none, .pairlist 2
      [("x", none), ("y", some (.atomic 3 (.list [.float (.nan 0)]))), ("z", none)]),
    (some "k", .symbol 4 "a")]

/-- A store of its five nodes, of which the literal has been noted. -/
def notedLiteral : Store Unit :=
  { Store.initial () with tables := #[[], [], [], [("noted", .bool true)], []] }

/-- One child is too few for the call, its own three children give an equal call, and a copy of it
carries the note of the literal. -/
theorem withChildren_is_lens_callWithDefault :
    notedLiteral.Knows callWithDefault ∧
    (callWithDefault.withChildren [.symbol 1 "f"]).run notedLiteral =
      (.error (.childCount 3 1), notedLiteral) ∧
    ((callWithDefault.withChildren callWithDefault.children).Ends notedLiteral fun made _ =>
      made.equal callWithDefault = true) ∧
    (callWithDefault.clone.Ends notedLiteral fun copy s' =>
      copy.nodes.map (fun n => s'.table n.tag) = [[], [], [], [("noted", .bool true)], []] ∧
        copy.equal callWithDefault = true) := by
  have known : notedLiteral.Knows callWithDefault := by
    intro m below
    have listed : m.tag ∈ callWithDefault.nodes.map Node.tag := List.mem_map_of_mem below
    have bounded : ∀ tag ∈ [0, 1, 2, 3, 4], tag < 5 := by decide
    exact bounded m.tag listed
  have steady : ∀ n ∈ callWithDefault.nodes, n.Steady := by
    simp [callWithDefault, nodes, nodesOfParams, nodesOfArgs, Steady, Value.Steady, Value.Keyed,
      KeyedItems]
  obtain ⟨refused, -, putBack, -, -, copied⟩ := withChildren_is_lens callWithDefault known
  refine ⟨known, refused [.symbol 1 "f"] (by decide), putBack.mono ?_, copied.mono ?_⟩
  · rintro made s' ⟨-, equal⟩
    exact equal (steady callWithDefault callWithDefault.self_mem_nodes)
  · rintro copy s' ⟨-, -, -, carried, equal⟩
    exact ⟨carried, equal steady⟩

/-- A literal that does not equal itself does not equal what it is rebuilt to, though the structure
is the same. -/
theorem rebuilt_nan_is_unequal :
    let literal : Expr := .atomic 0 (.float (.nan 0))
    (literal.withChildren literal.children).Ends { Store.initial () with tables := #[[]] }
      fun made _ => made.bare = literal.bare ∧ made.equal literal = false := by
  intro literal
  refine ⟨_, _, rfl, rfl, ?_⟩
  simp [literal, Node.equal, Value.equal, Value.equalPlain, Value.numeric?, Value.Numeric.equal,
    Number.Binary64.equal]

end Node

end TreePass
