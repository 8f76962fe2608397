import TreePass.Proofs.Effects

/-!
Calm actions record no warnings and leave the stamps of the nodes that exist alone. What a traversal
does itself at a node, looking for targets apart, is calm whenever the handlers are: both shapes of
results only make new nodes.
-/

set_option autoImplicit false
set_option relaxedAutoImplicit false

namespace TreePass

variable {σ ρ α β : Type}

/-- Between two stores these warnings and no others were recorded, and no stamp of a node that
existed has changed. -/
structure Store.Calm (said : List Warning) (before after : Store σ) : Prop where
  size : before.tables.size ≤ after.tables.size
  stamps : ∀ n : Expr, n.tag < before.tables.size → after.stamp? n = before.stamp? n
  warnings : after.warnings = before.warnings ++ said.toArray

namespace Store

theorem Calm.refl (s : Store σ) : Calm [] s s := ⟨Nat.le_refl _, fun _ _ => rfl, by simp⟩

theorem Calm.trans {said said' : List Warning} {a b c : Store σ} (first : Calm said a b)
    (second : Calm said' b c) : Calm (said ++ said') a c where
  size := Nat.le_trans first.size second.size
  stamps n old := by
    rw [second.stamps n (Nat.lt_of_lt_of_le old first.size), first.stamps n old]
  warnings := by
    rw [second.warnings, first.warnings, Array.append_assoc]
    simp

theorem stamp?_of_table_eq {before after : Store σ} {n : Expr}
    (same : after.table n.tag = before.table n.tag) : after.stamp? n = before.stamp? n := by
  rw [stamp?, stamp?, same]

theorem Frame.calm {before after : Store σ} (frame : Frame [] before after) :
    Calm [] before after where
  size := frame.size
  stamps n old := stamp?_of_table_eq (frame.table n.tag old List.not_mem_nil)
  warnings := by simpa using frame.warnings

private theorem calm_bound : Bound (Calm [] : Store σ → Store σ → Prop) where
  frame := Frame.calm
  trans := Calm.trans

end Store

/-- An action that records no warnings and changes no stamps, however it ends. -/
def Action.Calm (action : Action σ α) : Prop :=
  ∀ s : Store σ, Store.Calm [] s (action.run s).2

namespace Action

theorem Calm.of_run {action : Action σ α} (calm : action.Calm) {s s' : Store σ}
    {outcome : Except Fault α} (ran : action.run s = (outcome, s')) : Store.Calm [] s s' :=
  Within.of_run calm ran

theorem calm_pure (a : α) : (pure a : Action σ α).Calm := within_pure Store.calm_bound a

theorem Calm.bind {action : Action σ α} {next : α → Action σ β} (first : action.Calm)
    (rest : ∀ a, (next a).Calm) : (action >>= next).Calm :=
  Within.bind Store.calm_bound first rest

end Action

structure Shape.Calm (shape : Shape σ ρ) : Prop where
  leaf : ∀ node, (shape.leaf node).Calm
  composite : ∀ node results, (shape.composite node results).Calm
  accept : ∀ made value, ∀ result ∈ shape.accept made value, result.Calm

namespace Shape

theorem analysis_calm : (analysis : Shape σ Entries).Calm where
  leaf := Action.calm_pure
  composite node _ := Action.calm_pure node
  accept _ value result accepted := by
    obtain ⟨entries, -, rfl⟩ := Option.map_eq_some_iff.mp accepted
    exact Action.calm_pure entries

theorem transforming_calm : (transforming : Shape σ Expr).Calm where
  leaf := Node.clone_within Store.calm_bound
  composite := rebuild_within Store.calm_bound
  accept := accept_within Store.calm_bound

end Shape

def Handler.Calm (handler : Handler σ) : Prop :=
  ∀ node ctx, (∀ next ∈ ctx.next, ∀ n, (next n).Calm) → (handler node ctx).Calm

theorem Standard.run_calm (handler : Standard) : Handler.Calm (handler.run : Handler σ) :=
  Standard.run_within (fun _ => Store.calm_bound) handler

namespace Traversal

variable (t : Traversal σ) {shape : Shape σ ρ}

private theorem invoke_calm {chain : List (Link (Handler σ))}
    (links : ∀ link ∈ chain, Handler.Calm link.run) (ctx : Context σ) (node : Expr) :
    (invoke ctx chain node).Calm :=
  invoke_within (fun _ => Store.calm_bound.refl) links ctx node

private theorem finish_calm (calm : shape.Calm) (slot : Slot) (kind : Kind) (made : Option Expr)
    (value : Value) : (t.finish shape slot kind made value).Calm := by
  unfold finish
  split
  · rename_i result accepted
    exact calm.accept made value result accepted
  · exact Action.within_fail Store.calm_bound _

variable {t}

def Calm (t : Traversal σ) : Prop :=
  ∀ slot target, ∀ link ∈ t.config.fullChain slot target, Handler.Calm link.run

theorem Calm.visitLeaf (handlers : t.Calm) (calm : shape.Calm) (topdown inherited : Value)
    (node : Expr) : (t.visitLeaf shape topdown inherited node).Calm := by
  refine Action.Calm.bind (fun s => by rw [run_scopeAt]; exact .refl s) fun scope => ?_
  refine (calm.leaf node).bind fun made => ?_
  exact (invoke_calm (handlers _ _) _ made).bind fun value => t.finish_calm calm _ _ _ value

theorem Calm.descend (handlers : t.Calm) (target : Option Identity) (topdown scope : Value)
    (node : Expr) : (t.descend target topdown scope node).Calm :=
  Action.Calm.bind (Action.within_newVisit Store.calm_bound) fun visit =>
    Action.Within.catchSkip visit (invoke_calm (handlers _ _) _ node)

theorem Calm.endSkipped (calm : shape.Calm) (node : Expr) (value : Value) :
    (t.endSkipped shape node value).Calm :=
  Action.Calm.bind (Action.within_note Store.calm_bound _) fun _ => t.finish_calm calm _ _ _ value

theorem Calm.ascend (handlers : t.Calm) (calm : shape.Calm) (target : Option Identity)
    (inner scope : Value) (node : Expr) (results : List ρ) :
    (t.ascend shape target inner scope node results).Calm := by
  refine (calm.composite node results).bind fun made => ?_
  exact (invoke_calm (handlers _ _) _ made).bind fun value => t.finish_calm calm _ _ _ value

end Traversal

end TreePass
