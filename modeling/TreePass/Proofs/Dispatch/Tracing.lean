import TreePass.Proofs.Visiting

/-!
Traces. A traversal that ends with a result has visited calls and parameter lists in some order;
its trace lists these visits, each with the scope in force, the chains that ran and the warnings
recorded while its target was looked for. Having a trace is the same as ending with a result.
-/

set_option autoImplicit false
set_option relaxedAutoImplicit false

namespace TreePass

/-- The visit of a call or a parameter list. Where a skip ends the visit no chain runs on the way
up. -/
structure Visit (σ : Type) where
  node : Expr
  scope : Value
  down : List (Link (Handler σ))
  up : Option (List (Link (Handler σ)))
  warned : List Warning

def Store.recorded {σ : Type} (before after : Store σ) : List Warning :=
  after.warnings.toList.drop before.warnings.toList.length

namespace Traversal

variable {σ ρ : Type} (t : Traversal σ) (shape : Shape σ ρ)

/-- The nodes that are visited below a node: arguments and defaults, but no callee. -/
def traversed : Expr → List Expr
  | .call _ _ args => args.map (·.2)
  | .pairlist _ params => Node.defaults params
  | _ => []

/-- Looks for the target of a node; only calls have targets. -/
def targetOf (node : Expr) (scope : Value) : Action σ (Option Identity) :=
  match node with
  | .call _ callee _ => t.resolve callee scope
  | _ => pure none

def visitAll (topdown inherited : Value) : List Expr → Action σ (List ρ)
  | [] => pure []
  | node :: rest => do
    let result ← t.visit shape topdown inherited node
    return result :: (← visitAll topdown inherited rest)

private theorem visitArgs_eq (topdown inherited : Value) (args : List (Option String × Expr)) :
    t.visitArgs shape topdown inherited args =
      t.visitAll shape topdown inherited (args.map (·.2)) := by
  induction args with
  | nil => rfl
  | cons a rest ih =>
    simp only [visitArgs, List.map_cons, visitAll, ih]

private theorem visitParams_eq (topdown inherited : Value) (params : List (String × Option Expr)) :
    t.visitParams shape topdown inherited params =
      t.visitAll shape topdown inherited (Node.defaults params) := by
  induction params with
  | nil => rfl
  | cons p rest ih =>
    obtain ⟨name, d | d⟩ := p
    · exact ih
    · change _ = t.visitAll shape topdown inherited (d :: Node.defaults rest)
      simp only [visitParams, visitAll, ih]

theorem visit_of_composite {node : Expr} (composite : node.kind.isComposite = true)
    (topdown inherited : Value) :
    t.visit shape topdown inherited node = (do
      let scope ← scopeAt node inherited
      let target ← t.targetOf node scope
      match ← t.descend target topdown scope node with
      | .skipped value => t.endSkipped shape node value
      | .done inner => do
        let results ← t.visitAll shape inner scope (traversed node)
        t.ascend shape target inner scope node results) := by
  cases node with
  | atomic | symbol | primitive => cases composite
  | call tag callee args =>
    simp only [visit, visitArgs_eq]
    rfl
  | pairlist tag params =>
    simp only [visit, visitParams_eq]
    rfl

theorem visit_of_leaf {node : Expr} (simple : node.kind.isComposite = false)
    (topdown inherited : Value) :
    t.visit shape topdown inherited node = t.visitLeaf shape topdown inherited node := by
  cases node with
  | atomic | symbol | primitive => rfl
  | call | pairlist => cases simple

/-- The nodes were visited from left to right, from one store to another, with these results and
these visits in preorder. -/
inductive Traced : Value → Value → List Expr → Store σ → List (Visit σ) → List ρ → Store σ → Prop
  | nil {topdown inherited : Value} {s : Store σ} : Traced topdown inherited [] s [] [] s
  | leaf {topdown inherited : Value} {node : Expr} {nodes : List Expr} {s s₁ s₂ : Store σ}
      {log : List (Visit σ)} {result : ρ} {results : List ρ}
      (simple : node.kind.isComposite = false)
      (ran : (t.visitLeaf shape topdown inherited node).run s = (.ok result, s₁))
      (rest : Traced topdown inherited nodes s₁ log results s₂) :
      Traced topdown inherited (node :: nodes) s log (result :: results) s₂
  | skipped {topdown inherited scope value : Value} {node : Expr} {nodes : List Expr}
      {s s₁ s₂ s₃ s₄ : Store σ} {target : Option Identity} {log : List (Visit σ)} {result : ρ}
      {results : List ρ} (composite : node.kind.isComposite = true)
      (inForce : scope = (s.stamp? node).getD inherited)
      (found : (t.targetOf node scope).run s = (.ok target, s₁))
      (down : (t.descend target topdown scope node).run s₁ = (.ok (.skipped value), s₂))
      (ended : (t.endSkipped shape node value).run s₂ = (.ok result, s₃))
      (rest : Traced topdown inherited nodes s₃ log results s₄) :
      Traced topdown inherited (node :: nodes) s
        (⟨node, scope, t.config.fullChain .topdown target, none, s.recorded s₁⟩ :: log)
        (result :: results) s₄
  | done {topdown inherited scope inner : Value} {node : Expr} {nodes : List Expr}
      {s s₁ s₂ s₃ s₄ s₅ : Store σ} {target : Option Identity} {inside log : List (Visit σ)}
      {result : ρ} {collected results : List ρ} (composite : node.kind.isComposite = true)
      (inForce : scope = (s.stamp? node).getD inherited)
      (found : (t.targetOf node scope).run s = (.ok target, s₁))
      (down : (t.descend target topdown scope node).run s₁ = (.ok (.done inner), s₂))
      (children : Traced inner scope (traversed node) s₂ inside collected s₃)
      (up : (t.ascend shape target inner scope node collected).run s₃ = (.ok result, s₄))
      (rest : Traced topdown inherited nodes s₄ log results s₅) :
      Traced topdown inherited (node :: nodes) s
        (⟨node, scope, t.config.fullChain .topdown target,
          some (t.config.fullChain (Slot.ofKind node.kind) target), s.recorded s₁⟩ ::
            (inside ++ log)) (result :: results) s₅

variable {t shape}

theorem Traced.cons {topdown inherited : Value} {node : Expr} {nodes : List Expr}
    {s s₁ s₂ : Store σ} {log log' : List (Visit σ)} {result : ρ} {results : List ρ}
    (first : t.Traced shape topdown inherited [node] s log [result] s₁)
    (rest : t.Traced shape topdown inherited nodes s₁ log' results s₂) :
    t.Traced shape topdown inherited (node :: nodes) s (log ++ log') (result :: results) s₂ := by
  cases first with
  | leaf simple ran last =>
    cases last
    exact .leaf simple ran rest
  | skipped composite inForce found down ended last =>
    cases last
    exact .skipped composite inForce found down ended rest
  | done composite inForce found down children up last =>
    cases last
    rw [List.append_nil, List.cons_append]
    exact .done composite inForce found down children up rest

private theorem traced_of_visitAll {nodes : List Expr}
    (each : ∀ n ∈ nodes, ∀ {topdown inherited : Value} {s after : Store σ} {result : ρ},
      (t.visit shape topdown inherited n).run s = (.ok result, after) →
        ∃ log, t.Traced shape topdown inherited [n] s log [result] after)
    {topdown inherited : Value} {s after : Store σ} {results : List ρ}
    (ran : (t.visitAll shape topdown inherited nodes).run s = (.ok results, after)) :
    ∃ log, t.Traced shape topdown inherited nodes s log results after := by
  induction nodes generalizing s results with
  | nil =>
    obtain ⟨rfl, rfl⟩ := Action.ok_inj ran
    exact ⟨[], .nil⟩
  | cons node rest ih =>
    obtain ⟨result, s₁, ranFirst, ran⟩ := Action.run_bind_eq_ok.mp ran
    obtain ⟨others, s₂, ranRest, ran⟩ := Action.run_bind_eq_ok.mp ran
    obtain ⟨rfl, rfl⟩ := Action.ok_inj ran
    obtain ⟨log, first⟩ := each node List.mem_cons_self ranFirst
    obtain ⟨log', later⟩ := ih (fun n h => each n (List.mem_cons_of_mem _ h)) ranRest
    exact ⟨log ++ log', first.cons later⟩

private theorem traced_of_composite {node : Expr} (composite : node.kind.isComposite = true)
    (each : ∀ n ∈ traversed node, ∀ {topdown inherited : Value} {s after : Store σ} {result : ρ},
      (t.visit shape topdown inherited n).run s = (.ok result, after) →
        ∃ log, t.Traced shape topdown inherited [n] s log [result] after)
    {topdown inherited : Value} {s after : Store σ} {result : ρ}
    (ran : (t.visit shape topdown inherited node).run s = (.ok result, after)) :
    ∃ log, t.Traced shape topdown inherited [node] s log [result] after := by
  rw [visit_of_composite t shape composite,
    Action.run_bind_of_ok (run_scopeAt node inherited s)] at ran
  obtain ⟨target, s₁, found, ran⟩ := Action.run_bind_eq_ok.mp ran
  obtain ⟨outcome, s₂, down, ran⟩ := Action.run_bind_eq_ok.mp ran
  cases outcome with
  | skipped value => exact ⟨_, .skipped composite rfl found down ran .nil⟩
  | done inner =>
    obtain ⟨collected, s₃, ranBelow, up⟩ := Action.run_bind_eq_ok.mp ran
    obtain ⟨inside, children⟩ := traced_of_visitAll each ranBelow
    exact ⟨_, .done composite rfl found down children up .nil⟩

theorem traced_of_visit {node : Expr} {topdown inherited : Value} {s after : Store σ} {result : ρ}
    (ran : (t.visit shape topdown inherited node).run s = (.ok result, after)) :
    ∃ log, t.Traced shape topdown inherited [node] s log [result] after := by
  induction node using Node.induction generalizing topdown inherited s after result with
  | atomic | symbol | primitive =>
    rw [visit_of_leaf t shape rfl] at ran
    exact ⟨[], .leaf rfl ran .nil⟩
  | pairlist tag params ih =>
    refine traced_of_composite rfl (fun n member => ?_) ran
    obtain ⟨p, listed, given⟩ := List.mem_filterMap.mp member
    exact ih p listed n given
  -- The callee is never visited, so nothing is needed of it.
  | call tag callee args _ ih =>
    refine traced_of_composite rfl (fun n member => ?_) ran
    obtain ⟨a, listed, rfl⟩ := List.mem_map.mp member
    exact ih a listed

theorem run_visitAll_cons {topdown inherited : Value} {node : Expr} {nodes : List Expr}
    {s s₁ s₂ : Store σ} {result : ρ} {results : List ρ}
    (first : (t.visit shape topdown inherited node).run s = (.ok result, s₁))
    (rest : (t.visitAll shape topdown inherited nodes).run s₁ = (.ok results, s₂)) :
    (t.visitAll shape topdown inherited (node :: nodes)).run s =
      (.ok (result :: results), s₂) := by
  rw [visitAll, Action.run_bind_of_ok first, Action.run_bind_of_ok rest]
  rfl

theorem Traced.run {topdown inherited : Value} {nodes : List Expr} {s after : Store σ}
    {log : List (Visit σ)} {results : List ρ}
    (traced : t.Traced shape topdown inherited nodes s log results after) :
    (t.visitAll shape topdown inherited nodes).run s = (.ok results, after) := by
  induction traced with
  | nil => rfl
  | leaf simple ran _ ih =>
    rw [← visit_of_leaf t shape simple] at ran
    exact run_visitAll_cons ran ih
  | skipped composite inForce found down ended _ ih =>
    subst inForce
    refine run_visitAll_cons ?_ ih
    rw [visit_of_composite t shape composite, Action.run_bind_of_ok (run_scopeAt _ _ _),
      Action.run_bind_of_ok found, Action.run_bind_of_ok down]
    exact ended
  | done composite inForce found down _ up _ ihBelow ih =>
    subst inForce
    refine run_visitAll_cons ?_ ih
    rw [visit_of_composite t shape composite, Action.run_bind_of_ok (run_scopeAt _ _ _),
      Action.run_bind_of_ok found, Action.run_bind_of_ok down]
    exact (Action.run_bind_of_ok ihBelow).trans up

theorem run_visit_eq_ok_iff {node : Expr} {topdown inherited : Value} {s after : Store σ}
    {result : ρ} :
    (t.visit shape topdown inherited node).run s = (.ok result, after) ↔
      ∃ log, t.Traced shape topdown inherited [node] s log [result] after := by
  constructor
  · exact traced_of_visit
  · rintro ⟨log, traced⟩
    obtain ⟨found, s₁, first, ran⟩ := Action.run_bind_eq_ok.mp traced.run
    have ends : (pure [found] : Action σ (List ρ)).run s₁ = (.ok [result], after) := ran
    obtain ⟨same, rfl⟩ := Action.ok_inj ends
    obtain ⟨rfl, -⟩ := List.cons.inj same
    exact first

end Traversal

end TreePass
