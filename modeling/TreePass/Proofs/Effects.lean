import TreePass.Proofs.Refilling
import TreePass.Proofs.Visiting

/-!
Bounds on effects. A relation between the stores before and after bounds what an action does,
however the action ends. Where the relation leaves room for new nodes and goes on from step to step,
the parts that a traversal is made of stay within it, handlers and the search for targets apart; and
a chain stays within it if each of its handlers does.
-/

set_option autoImplicit false
set_option relaxedAutoImplicit false

namespace TreePass

variable {σ α β : Type}

/-- A relation between stores that leaves room for new nodes and goes on from step to step. -/
structure Store.Bound (within : Store σ → Store σ → Prop) : Prop where
  frame : ∀ {a b : Store σ}, Frame [] a b → within a b
  trans : ∀ {a b c : Store σ}, within a b → within b c → within a c

theorem Store.Bound.refl {within : Store σ → Store σ → Prop} (bound : Bound within) (s : Store σ) :
    within s s :=
  bound.frame (.refl [] s)

/-- However the action ends, the stores before and after it are related. -/
def Action.Within (within : Store σ → Store σ → Prop) (action : Action σ α) : Prop :=
  ∀ s : Store σ, within s (action.run s).2

variable {within : Store σ → Store σ → Prop}

namespace Action

theorem Within.of_run {action : Action σ α} (bounded : action.Within within) {s s' : Store σ}
    {outcome : Except Fault α} (ran : action.run s = (outcome, s')) : within s s' := by
  have whole := bounded s
  rwa [ran] at whole

theorem within_pure (bound : Store.Bound within) (a : α) : (pure a : Action σ α).Within within :=
  fun s => bound.frame (.refl [] s)

theorem within_fail (bound : Store.Bound within) (fault : Fault) :
    (fail fault : Action σ α).Within within :=
  fun s => bound.frame (.refl [] s)

theorem within_ofExcept (bound : Store.Bound within) (known : Except Fault α) :
    (ofExcept known : Action σ α).Within within := by
  cases known with
  | ok a => exact within_pure bound a
  | error fault => exact within_fail bound fault

theorem within_note (bound : Store.Bound within) (entry : Note) :
    (note entry : Action σ Unit).Within within :=
  fun _ => bound.frame (Store.frame_of_tables_eq rfl rfl rfl)

theorem within_newVisit (bound : Store.Bound within) :
    (newVisit : Action σ Nat).Within within :=
  fun _ => bound.frame (Store.frame_of_tables_eq rfl rfl rfl)

variable (within) in
/-- A sequence stays within a transitive relation from a store on, if its parts do from the stores
they meet. -/
theorem within_bind_of_trans (trans : ∀ {a b c : Store σ}, within a b → within b c → within a c)
    {action : Action σ α} {next : α → Action σ β} {s : Store σ} (first : within s (action.run s).2)
    (rest : ∀ a s', action.run s = (.ok a, s') → within s' ((next a).run s').2) :
    within s ((action >>= next).run s).2 := by
  cases ran : action.run s with
  | mk outcome s' =>
    rw [ran] at first
    cases outcome with
    | error fault =>
      rw [run_bind_of_error ran]
      exact first
    | ok a =>
      rw [run_bind_of_ok ran]
      exact trans first (rest a s' ran)

theorem within_bind_at (bound : Store.Bound within) {action : Action σ α} {next : α → Action σ β}
    {s : Store σ} (first : within s (action.run s).2)
    (rest : ∀ a s', action.run s = (.ok a, s') → within s' ((next a).run s').2) :
    within s ((action >>= next).run s).2 :=
  within_bind_of_trans within bound.trans first rest

theorem Within.bind (bound : Store.Bound within) {action : Action σ α} {next : α → Action σ β}
    (first : action.Within within) (rest : ∀ a, (next a).Within within) :
    (action >>= next).Within within :=
  fun s => within_bind_at bound (first s) fun a s' _ => rest a s'

theorem Within.mono {wider : Store σ → Store σ → Prop} {action : Action σ α}
    (bounded : action.Within within) (weaker : ∀ a b, within a b → wider a b) :
    action.Within wider :=
  fun s => weaker s _ (bounded s)

theorem Within.catchSkip {action : Action σ α} (visit : Nat) (bounded : action.Within within) :
    (catchSkip visit action).Within within := by
  intro s
  have same : ((Action.catchSkip visit action).run s).2 = (action.run s).2 := by
    simp only [Action.catchSkip]
    split
    · rename_i ran
      rw [ran]
    · rename_i ran
      rw [ran]
      split <;> rfl
    · rename_i ran
      rw [ran]
  rw [same]
  exact bounded s

end Action

namespace Node

theorem clone_within (bound : Store.Bound within) (node : Expr) :
    (node.clone : Action σ Expr).Within within := by
  intro s
  obtain ⟨out, s', ran, _, copied⟩ := node.clone_ends s
  rw [ran]
  exact bound.frame copied.frame

private theorem withChildren_within (bound : Store.Bound within) (node : Expr) (fresh : List Expr) :
    (node.withChildren fresh : Action σ Expr).Within within := by
  rw [withChildren_eq]
  split_ifs
  · exact fun s => bound.frame (s.frame_push (s.table node.tag))
  · exact Action.within_fail bound _

end Node

namespace Shape

theorem rebuild_within (bound : Store.Bound within) (node : Expr) (fresh : List Expr) :
    (rebuild node fresh : Action σ Expr).Within within := by
  cases node with
  | call tag callee args =>
    exact Action.Within.bind bound (Node.clone_within bound callee) fun copy =>
      Node.withChildren_within bound _ (copy :: fresh)
  | atomic | symbol | primitive | pairlist => exact Node.withChildren_within bound _ fresh

theorem accept_within (bound : Store.Bound within) (made : Option Expr) (value : Value) :
    ∀ result ∈ (transforming : Shape σ Expr).accept made value, result.Within within := by
  intro result accepted
  obtain ⟨node, -, rfl⟩ := Option.map_eq_some_iff.mp accepted
  cases made with
  | none => exact Node.clone_within bound node
  | some fresh =>
    simp only
    split_ifs
    · exact Action.within_pure bound fresh
    · exact Node.clone_within bound node

end Shape

theorem Traversal.finish_within (bound : Store.Bound within) (t : Traversal σ) (slot : Slot)
    (kind : Kind) (made : Option Expr) (value : Value) :
    (t.finish .transforming slot kind made value).Within within := by
  unfold finish
  split
  · rename_i result accepted
    exact Shape.accept_within bound made value result accepted
  · exact Action.within_fail bound _

/-- A handler that stays within what its node allows, if the rest of its chain stays within what the
nodes given to it allow. -/
def Handler.Within (allowed : Tag → Store σ → Store σ → Prop) (handler : Handler σ) : Prop :=
  ∀ node ctx, (∀ next ∈ ctx.next, ∀ n, (next n).Within (allowed n.tag)) →
    (handler node ctx).Within (allowed node.tag)

variable {allowed : Tag → Store σ → Store σ → Prop}

theorem Standard.run_within (bound : ∀ tag, Store.Bound (allowed tag)) (handler : Standard) :
    Handler.Within allowed (handler.run : Handler σ) := by
  intro node ctx _
  cases handler with
  | keepNode => exact Action.within_pure (bound _) _
  | emptyAnalysis => exact Action.within_pure (bound _) _
  | passTopdown => exact Action.within_pure (bound _) _
  | mergeAnalysis =>
    exact Action.Within.bind (bound _) (Action.within_ofExcept (bound _) _) fun merged =>
      Action.within_pure (bound _) _

theorem Traversal.invoke_within (refl : ∀ tag s, allowed tag s s)
    {chain : List (Link (Handler σ))} (links : ∀ link ∈ chain, Handler.Within allowed link.run)
    (ctx : Context σ) (node : Expr) : (invoke ctx chain node).Within (allowed node.tag) := by
  induction chain generalizing node with
  | nil => exact fun s => refl node.tag s
  | cons link rest ih =>
    have later := ih fun l h => links l (List.mem_cons_of_mem _ h)
    cases rest with
    | nil =>
      refine links link List.mem_cons_self node _ ?_
      simp
    | cons second rest =>
      refine links link List.mem_cons_self node _ ?_
      intro next given n
      obtain rfl := Option.mem_some_iff.mp given
      exact later n

end TreePass
