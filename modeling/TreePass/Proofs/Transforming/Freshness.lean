import TreePass.Proofs.Dispatch.Exactness
import TreePass.Proofs.Refilling
import TreePass.Proofs.Scoping.Annotation

/-!
Transformations share nothing. Whatever the handlers return, all nodes of the result were made
during the run, each of them for one position: a result is either the node that was made for the
chain, which stands above the results of the children, or it is copied.
-/

set_option autoImplicit false
set_option relaxedAutoImplicit false

namespace TreePass

variable {σ : Type}

namespace Node

theorem withChildren_eq_ok {node made : Expr} {children : List Expr} {s s' : Store σ}
    (ran : (node.withChildren children).run s = (.ok made, s')) :
    made.tag = s.tables.size ∧ s' = s.push (s.table node.tag) ∧
      made.nodes = made :: children.flatMap nodes := by
  obtain ⟨fits, rfl, rfl⟩ := eq_refill_of_withChildren ran
  exact ⟨tag_refill _ _ _, rfl, nodes_refill _ fits⟩

private theorem fresh_of_withChildren {node made : Expr} {children : List Expr} {a s s' : Store σ}
    (ran : (node.withChildren children).run s = (.ok made, s'))
    (fresh : Fresh a s (children.flatMap nodes)) (grown : a.tables.size ≤ s.tables.size) :
    Fresh a s' made.nodes := by
  obtain ⟨tagged, rfl, holds⟩ := withChildren_eq_ok ran
  rw [holds]
  exact fresh.cons_push _ grown tagged

end Node

open Node (Fresh)

/-- The node made for the chain of a composite: the copy of the callee is as new as the results of
the children. -/
theorem Shape.fresh_of_rebuild {node made : Expr} {results : List Expr} {a s s' : Store σ}
    (ran : (Shape.rebuild node results).run s = (.ok made, s'))
    (fresh : Fresh a s (results.flatMap Node.nodes)) (grown : a.tables.size ≤ s.tables.size) :
    Fresh a s' made.nodes := by
  cases node with
  | atomic | symbol | primitive | pairlist => exact Node.fresh_of_withChildren ran fresh grown
  | call tag callee args =>
    obtain ⟨copy, s₁, cloned, ran⟩ := Action.run_bind_eq_ok.mp ran
    have later := Action.size_le_of_run cloned
    have both := fresh.append (Node.fresh_of_clone cloned) grown later
    refine Node.fresh_of_withChildren ran ?_ (Nat.le_trans grown later)
    rw [List.flatMap_cons]
    exact both.perm List.perm_append_comm

namespace Traversal

variable {t : Traversal σ} {topdown inherited : Value} {a s after : Store σ} {out : Expr}

/-- A result that is not the node made for the chain is copied, so in both cases it is new. -/
theorem fresh_of_finish {slot : Slot} {kind : Kind} {made : Option Expr} {value : Value}
    (ran : (t.finish .transforming slot kind made value).run s = (.ok out, after))
    (fresh : ∀ m ∈ made, Fresh a s m.nodes) (grown : a.tables.size ≤ s.tables.size) :
    Fresh a after out.nodes := by
  have later := Action.size_le_of_run ran
  have copied {node : Expr} (ran : node.clone.run s = (.ok out, after)) :
      Fresh a after out.nodes :=
    (Node.fresh_of_clone ran).widen grown (Nat.le_refl _)
  simp only [finish, Shape.transforming] at ran
  cases given : value.node? with
  | none =>
    rw [given] at ran
    cases ran
  | some node =>
    rw [given] at ran
    cases made with
    | none => exact copied ran
    | some m =>
      simp only [Option.map_some] at ran
      split_ifs at ran
      · obtain ⟨rfl, rfl⟩ := Action.ok_inj ran
        exact fresh m rfl
      · exact copied ran

private theorem fresh_of_visitLeaf {node : Expr}
    (ran : (t.visitLeaf .transforming topdown inherited node).run s = (.ok out, after)) :
    Fresh s after out.nodes := by
  rw [visitLeaf, Action.run_bind_of_ok (run_scopeAt node inherited s)] at ran
  obtain ⟨made, s₁, cloned, ran⟩ := Action.run_bind_eq_ok.mp ran
  obtain ⟨value, s₂, called, ran⟩ := Action.run_bind_eq_ok.mp ran
  have later := Action.size_le_of_run called
  refine fresh_of_finish ran ?_ (Nat.le_trans (Action.size_le_of_run cloned) later)
  intro m given
  obtain rfl := Option.mem_some_iff.mp given
  exact (Node.fresh_of_clone cloned).widen (Nat.le_refl _) later

private theorem fresh_of_endSkipped {node : Expr} {value : Value}
    (ran : (t.endSkipped .transforming node value).run s = (.ok out, after)) :
    Fresh s after out.nodes := by
  obtain ⟨_, s₁, noted, ran⟩ := Action.run_bind_eq_ok.mp ran
  exact fresh_of_finish ran (by simp) (Action.size_le_of_run noted)

/-- What comes up out of a composite is new since before its children were visited. -/
theorem fresh_of_ascend {target : Option Identity} {inner scope : Value} {node : Expr}
    {results : List Expr}
    (ran : (t.ascend .transforming target inner scope node results).run s = (.ok out, after))
    (fresh : Fresh a s (results.flatMap Node.nodes)) (grown : a.tables.size ≤ s.tables.size) :
    Fresh a after out.nodes := by
  obtain ⟨made, s₁, rebuilt, ran⟩ := Action.run_bind_eq_ok.mp ran
  obtain ⟨value, s₂, called, ran⟩ := Action.run_bind_eq_ok.mp ran
  have grown₁ := Nat.le_trans grown (Action.size_le_of_run rebuilt)
  have later := Action.size_le_of_run called
  refine fresh_of_finish ran ?_ (Nat.le_trans grown₁ later)
  intro m given
  obtain rfl := Option.mem_some_iff.mp given
  exact (Shape.fresh_of_rebuild rebuilt fresh grown).widen (Nat.le_refl _) later

private theorem fresh_of_traced {nodes results : List Expr} {log : List (Visit σ)}
    (traced : t.Traced .transforming topdown inherited nodes s log results after) :
    Fresh s after (results.flatMap Node.nodes) := by
  induction traced with
  | nil => exact Fresh.nil _ _
  | leaf _ ran rest ih =>
    rw [List.flatMap_cons]
    exact (fresh_of_visitLeaf ran).append ih (Action.size_le_of_run ran)
      (Action.size_le_of_run rest.run)
  | skipped _ _ found down ended rest ih =>
    have entered := Nat.le_trans (Action.size_le_of_run found) (Action.size_le_of_run down)
    have left := Action.size_le_of_run ended
    rw [List.flatMap_cons]
    exact ((fresh_of_endSkipped ended).widen entered (Nat.le_refl _)).append ih
      (Nat.le_trans entered left) (Action.size_le_of_run rest.run)
  | done _ _ found down children up rest ihBelow ih =>
    have entered := Nat.le_trans (Action.size_le_of_run found) (Action.size_le_of_run down)
    have below := Action.size_le_of_run children.run
    have left := Action.size_le_of_run up
    rw [List.flatMap_cons]
    exact ((fresh_of_ascend up ihBelow below).widen entered (Nat.le_refl _)).append ih
      (Nat.le_trans entered (Nat.le_trans below left)) (Action.size_le_of_run rest.run)

theorem fresh_of_transform {scope : Scope} {expr : Expr}
    (ran : (t.transform topdown scope expr).run s = (.ok out, after)) :
    Fresh s after out.nodes := by
  obtain ⟨log, traced⟩ := traced_of_visit ran
  simpa using fresh_of_traced traced

end Traversal

theorem Policy.fresh_of_annotate {policy : Policy} {fn out : Function} {s after : Store σ}
    (ran : (policy.annotate fn).run s = (.ok out, after)) : Fresh s after out.nodes := by
  obtain ⟨copy, copied, stamping⟩ := (annotated_of_run ran).written
  exact copied.fresh.widen (Nat.le_refl _) stamping.frame.size

/-- No two positions hold the same node, and none of the nodes stands in a tree that existed
before. -/
structure Store.Unshared (before : Store σ) (positions : List Expr) : Prop where
  once : (positions.map Node.tag).Nodup
  apart : ∀ old : Expr, before.Knows old → ∀ m ∈ old.nodes, ∀ n ∈ positions, n.tag ≠ m.tag

theorem Node.Fresh.unshared {before after : Store σ} {made : List Expr}
    (fresh : Fresh before after made) : before.Unshared made where
  once := fresh.nodup
  apart _ known m below n member :=
    Nat.ne_of_gt (Nat.lt_of_lt_of_le (known m below) (fresh.new n member).1)

namespace Pass

variable {pass : Pass σ} {s after : Store σ}

private theorem fresh_of_transformExpr {env : Option Environment} {expr out : Expr}
    (ran : (pass.transformExpr env expr).run s = (.ok out, after)) : Fresh s after out.nodes := by
  obtain ⟨_, s₁, checked, ran⟩ := Action.run_bind_eq_ok.mp ran
  exact (Traversal.fresh_of_transform ran).widen (Action.size_le_of_run checked) (Nat.le_refl _)

private theorem fresh_of_transformFunction {fn out : Function} {policy : Option Policy}
    (ran : (pass.transformFunction fn policy).run s = (.ok out, after)) :
    Fresh s after out.nodes := by
  obtain ⟨result, s', grown, ran⟩ := annotate_of_transformFunction ran
  exact (Policy.fresh_of_annotate ran).widen grown (Nat.le_refl _)

end Pass

/-- The result of a transformation shares no node with itself or with what existed before, whatever
the tree, the configuration and the handlers are: that of a traversal, of a pass over an expression
and of a pass over a function. -/
theorem transformation_shares_nothing (s : Store σ) :
    (∀ (t : Traversal σ) (topdown : Value) (scope : Scope) (expr out : Expr) (after : Store σ),
      (t.transform topdown scope expr).run s = (.ok out, after) → s.Unshared out.nodes) ∧
    (∀ (pass : Pass σ) (env : Option Environment) (expr out : Expr) (after : Store σ),
      (pass.transformExpr env expr).run s = (.ok out, after) → s.Unshared out.nodes) ∧
    ∀ (pass : Pass σ) (fn : Function) (policy : Option Policy) (out : Function) (after : Store σ),
      (pass.transformFunction fn policy).run s = (.ok out, after) → s.Unshared out.nodes := by
  refine ⟨?_, ?_, ?_⟩
  · intro t topdown scope expr out after ran
    exact (Traversal.fresh_of_transform ran).unshared
  · intro pass env expr out after ran
    exact (Pass.fresh_of_transformExpr ran).unshared
  · intro pass fn policy out after ran
    exact (Pass.fresh_of_transformFunction ran).unshared

/-- A tree `g(x, x)` in which both arguments are one node. -/
def doubled : Expr :=
  .call 0 (.symbol 1 "g") [(none, .symbol 2 "x"), (none, .symbol 2 "x")]

/-- The pass that puts one and the same tree in the place of every variable. -/
def repeatDoubled : Pass Unit where
  config := (Config.standard .transform).install .symbol fun _ _ => pure (.node doubled)

/-- A call `f(a, a)` in which both arguments are one node. -/
def sharedArguments : Expr :=
  .call 3 (.symbol 4 "f") [(none, .symbol 5 "a"), (none, .symbol 5 "a")]

/-- Both arguments are replaced by the same tree, and the ten positions of the result hold ten nodes
that are neither of the input nor of the replacement. -/
theorem transformation_shares_nothing_repeatDoubled :
    ∃ (s : Store Unit) (out : Expr) (after : Store Unit), s.Knows doubled ∧
      s.Knows sharedArguments ∧
      (repeatDoubled.transformExpr none sharedArguments).run s = (.ok out, after) ∧
      out.nodes.length = 10 ∧ s.Unshared out.nodes := by
  let s : Store Unit := { Store.initial () with tables := #[[], [], [], [], [], []] }
  have known {old : Expr} (bounded : ∀ tag ∈ old.nodes.map Node.tag, tag < 6) : s.Knows old :=
    fun m below => bounded m.tag (List.mem_map_of_mem below)
  obtain ⟨out, after, ran, count⟩ :
      (repeatDoubled.transformExpr none sharedArguments).Ends s fun out _ =>
        decide (out.nodes.length = 10) = true :=
    Action.ends_of_check _ (by decide +kernel)
  refine ⟨s, out, after, known (by decide), known (by decide), ran, of_decide_eq_true count, ?_⟩
  exact (transformation_shares_nothing s).2.1 repeatDoubled none sharedArguments out after ran

end TreePass
