import TreePass.Proofs.Analysing.Remerging
import TreePass.Proofs.Ordering.Recording
import TreePass.Proofs.Rebuilding
import TreePass.Proofs.Turns.Faults
import TreePass.Proofs.Turns.Independence
import TreePass.Proofs.Turns.Places

/-!
What is reported of the children. In an analysis the chain of a composite is told one map for each
visited child, in order, at every link and whatever node is passed on, so merging what is told never
fails. In a transformation handlers are told nothing, and the node that the chain gets is put
together from the results of the children, which are as many as before, so putting it together never
fails either.
-/

set_option autoImplicit false
set_option relaxedAutoImplicit false

namespace TreePass

variable {σ ρ : Type}

open Traversal (traversed)

/-- Two links do the same whenever they are told what the circumstances are, whatever node they get
and whatever comes next. -/
def Link.AgreeIn (ctx : Context σ) (link other : Link (Handler σ)) : Prop :=
  ∀ node next, link.run node { ctx with next := next } = other.run node { ctx with next := next }

theorem Standard.run_mergeAnalysis {ctx : Context σ} {maps : List Entries}
    (told : ctx.bottomup.getD [] = maps.map .map) (node : Expr) (s : Store σ) :
    (Standard.mergeAnalysis.run node ctx).run s =
      (.ok (.map (merge maps).entries), s) := by
  have results : ∀ result ∈ maps.map Value.map, result.IsResult := by
    intro result listed
    obtain ⟨entries, -, rfl⟩ := List.mem_map.mp listed
    exact Value.isResult_map entries
  have held : (maps.map Value.map).map Value.held = maps := by
    rw [List.map_map]
    exact List.map_id maps
  have merged : mergeResults (ctx.bottomup.getD []) = .ok (merge maps) := by
    rw [told, mergeResults_eq_merge results, held]
  simp only [run, merged]
  rfl

namespace Node

private theorem made_of_withChildren {node made : Expr} {fresh : List Expr} {s s' : Store σ}
    (ran : (node.withChildren fresh).run s = (.ok made, s')) :
    made.trunk = node.trunk ∧ made.children = fresh ∧
      fresh.length = node.children.length := by
  obtain ⟨fits, rfl, -⟩ := eq_refill_of_withChildren ran
  exact ⟨trunk_refill _ fits, children_refill _ fits, fits⟩

private theorem made_of_clone {node made : Expr} {s s' : Store σ}
    (ran : node.clone.run s = (.ok made, s')) :
    made.trunk = node.trunk ∧ made.children.length = node.children.length := by
  have same := (copied_of_clone ran).1
  have children := congrArg Node.children same
  rw [children_bare, children_bare] at children
  exact ⟨trunk_eq_of_bare_eq same, by simpa using congrArg List.length children⟩

private theorem traversed_eq (node : Expr) :
    traversed node = if node.kind = .call then node.children.tail else node.children := by
  cases node <;> rfl

private theorem arityFault_ne_handlerResult (node : Expr) (given : Nat) (slot : Slot) (kind : Kind)
    (mode : Mode) (typeName : String) :
    node.arityFault given ≠ .handlerResult slot kind mode typeName := by
  cases node <;> exact fun same => nomatch same

private theorem arityFault_ne_missingMember (node : Expr) (given : Nat) :
    node.arityFault given ≠ .missingMember := by
  cases node <;> exact fun same => nomatch same

end Node

/-- A rebuilt node holds what the old one held, around the results of the visited children. -/
theorem Shape.made_of_rebuild {node made : Expr} {results : List Expr} {s s' : Store σ}
    (ran : (Shape.rebuild node results).run s = (.ok made, s')) :
    made.trunk = node.trunk ∧ traversed made = results ∧
      made.children.length = node.children.length := by
  cases node with
  | atomic | symbol | primitive | pairlist =>
    obtain ⟨trunk, children, fits⟩ := Node.made_of_withChildren ran
    have kind := Node.kind_eq_of_trunk_eq trunk
    refine ⟨trunk, ?_, by rw [children, fits]⟩
    rw [Node.traversed_eq, kind, ← children]
    rfl
  | call tag callee args =>
    obtain ⟨copy, s₁, -, ran⟩ := Action.run_bind_eq_ok.mp ran
    obtain ⟨trunk, children, fits⟩ := Node.made_of_withChildren ran
    have kind := Node.kind_eq_of_trunk_eq trunk
    refine ⟨trunk, ?_, by rw [children, fits]⟩
    rw [Node.traversed_eq, kind, children]
    rfl

namespace Traversal

/-- A chain depends on its links only through what they do in the circumstances of the chain: no
link is ever told anything else, whatever nodes are passed on. -/
theorem invoke_eq_of_agree {ctx : Context σ} {chain others : List (Link (Handler σ))}
    (agree : List.Forall₂ (Link.AgreeIn ctx) chain others) (node : Expr) :
    invoke ctx chain node = invoke ctx others node := by
  induction agree generalizing node with
  | nil => rfl
  | @cons link other rest more own later ih =>
    cases later with
    | nil => exact own node none
    | cons =>
      have below := funext ih
      rw [invoke_cons ctx link (List.cons_ne_nil _ _), below,
        invoke_cons ctx other (List.cons_ne_nil _ _)]
      exact own node _

variable (t : Traversal σ) (shape : Shape σ ρ)

/-- The results are those of the visits of all children of a turn's node, in order. -/
structure Reports (turns : List (Turn σ)) (turn : Turn σ) (results : List ρ) : Prop where
  length : results.length = (traversed turn.entry.node).length
  each : ∀ i result, results[i]? = some result → ∃ child ∈ turns,
    child.place = turn.place ++ [i] ∧ (traversed turn.entry.node)[i]? = some child.entry.node ∧
      (t.outcome shape child.entry).1 = .ok result

/-- What every link of every chain of a run is told is what its turn is told, and merging it never
fails. -/
structure Told (turns : List (Turn σ)) : Prop where
  links : ∀ turn ∈ turns, ∀ others,
    List.Forall₂ (Link.AgreeIn turn.ctx) (t.config.fullChain turn.slot turn.target) others →
      ∀ node, invoke turn.ctx (t.config.fullChain turn.slot turn.target) node =
        invoke turn.ctx others node
  merges : ∀ turn ∈ turns, ∀ (node : Expr) (next : Option (Expr → Action σ Value)) (s : Store σ),
    ∃ merged,
      (Standard.mergeAnalysis.run node { turn.ctx with next := next }).run s =
        (.ok (.map merged), s)

/-- What the handlers of an analysis are told of the children. -/
structure AnalysisReports (first : Entry σ) (turns : List (Turn σ))
    (ran : Except Fault Entries × Store σ) : Prop where
  course : t.Course .analysis first turns ran
  told : t.Told turns
  given : ∀ turn ∈ turns, turn.given = turn.entry.node
  /-- On the way down no child has been visited. -/
  down : ∀ turn ∈ turns, turn.slot = .topdown → turn.ctx.bottomup = none
  own : ∀ turn ∈ turns, turn.slot ≠ .topdown → ∃ maps : List Entries,
    turn.ctx.bottomup = some (maps.map .map) ∧ t.Reports .analysis turns turn maps
  leaf : ∀ turn ∈ turns, turn.entry.node.kind.isComposite = false → turn.ctx.bottomup = some []

/-- What the handlers of a transformation are told and given. -/
structure TransformationReports (first : Entry σ) (turns : List (Turn σ))
    (ran : Except Fault Expr × Store σ) : Prop where
  course : t.Course .transforming first turns ran
  told : t.Told turns
  silent : ∀ turn ∈ turns, turn.ctx.bottomup = none
  /-- The node that a chain gets holds what the visited node holds, around what the visits of its
  children gave. -/
  given : ∀ turn ∈ turns, turn.slot ≠ .topdown → turn.given.trunk = turn.entry.node.trunk ∧
    turn.given.children.length = turn.entry.node.children.length ∧
      t.Reports .transforming turns turn (traversed turn.given)
  /-- A complaint about a number of children comes from a handler. -/
  arity : ∀ (node : Expr) (number : Nat), ran.1 = .error (node.arityFault number) →
    ∃ turn ∈ turns, (t.ending turn).1 = .error (node.arityFault number)

variable {t shape} {first : Entry σ} {turns : List (Turn σ)} {ran : Except Fault ρ × Store σ}

private theorem length_of_visitAll {topdown inherited : Value} {nodes : List Expr}
    {results : List ρ} {s s' : Store σ}
    (ran : (t.visitAll shape topdown inherited nodes).run s = (.ok results, s')) :
    results.length = nodes.length := by
  induction nodes generalizing s s' results with
  | nil =>
    obtain ⟨rfl, -⟩ := Action.ok_inj ran
    rfl
  | cons node rest ih =>
    obtain ⟨result, s₁, -, ran⟩ := Action.run_bind_eq_ok.mp ran
    obtain ⟨others, s₂, later, ran⟩ := Action.run_bind_eq_ok.mp ran
    obtain ⟨rfl, -⟩ := Action.ok_inj ran
    exact congrArg Nat.succ (ih later)

theorem Course.reports (course : t.Course shape first turns ran) (root : first.place = [])
    {turn : Turn σ} (member : turn ∈ turns) {results : List ρ}
    (length : results.length = (traversed turn.entry.node).length)
    (collected : t.Collected shape turns turn.place 0 results) :
    t.Reports shape turns turn results := by
  refine ⟨length, fun i result listed => ?_⟩
  obtain ⟨child, there, placed, gave⟩ := collected i result listed
  rw [Nat.zero_add] at placed
  have here := course.node_at root member
  have below := course.node_at root there
  rw [placed, Node.at?_append, here, Option.bind_some] at below
  exact ⟨child, there, placed, below, gave⟩

private theorem told_of_maps (maps : ∀ turn ∈ turns, ∃ maps : List Entries,
    turn.ctx.bottomup.getD [] = maps.map .map) : t.Told turns where
  links turn member others agree node := invoke_eq_of_agree agree node
  merges turn member node next s := by
    obtain ⟨entries, told⟩ := maps turn member
    exact ⟨(merge entries).entries, Standard.run_mergeAnalysis told node s⟩

private theorem ending_of_fault? {turn : Turn σ} {fault : Fault}
    (own : t.fault? shape turn = some fault) : (t.ending turn).1 = .error fault ∨
      ∃ slot kind mode typeName, fault = .handlerResult slot kind mode typeName := by
  have refused {slot : Slot} {kind : Kind} {made : Option Expr} {value : Value}
      (refusal : t.refusal? shape slot kind made value = some fault) :
      ∃ slot kind mode typeName, fault = .handlerResult slot kind mode typeName := by
    unfold refusal? at refusal
    split_ifs at refusal
    exact ⟨_, _, _, _, (Option.some.inj refusal).symm⟩
  unfold fault? at own
  cases ended : (t.ending turn).1 with
  | ok value =>
    rw [ended] at own
    by_cases down : turn.slot = .topdown
    · simp only [down, ↓reduceIte] at own
      cases own
    · simp only [down, ↓reduceIte] at own
      exact Or.inr (refused own)
  | error raised =>
    rw [ended] at own
    cases skips : turn.skip? raised with
    | some value =>
      simp only [skips] at own
      exact Or.inr (refused own)
    | none =>
      simp only [skips] at own
      exact Or.inl (congrArg Except.error (Option.some.inj own))

private theorem Course.arity_raised (sound : shape.Sound) (course : t.Course shape first turns ran)
    {node : Expr} {number : Nat} (ended : ran.1 = .error (node.arityFault number)) :
    ∃ turn ∈ turns, (t.ending turn).1 = .error (node.arityFault number) := by
  obtain ⟨outcome, after⟩ := ran
  have ends := course.visited.endsBy sound
  simp only at ended
  rw [ended] at ends
  generalize complaint : node.arityFault number = fault at ends
  cases ends with
  | @fault earlier last _ _ split _ own =>
    have listed : last ∈ turns := by simp [split]
    rcases ending_of_fault? own with raised | ⟨slot, kind, mode, typeName, refused⟩
    · exact ⟨last, listed, raised⟩
    · have same := complaint.trans refused
      exact absurd same (node.arityFault_ne_handlerResult number slot kind mode typeName)
  | lost => exact absurd complaint (node.arityFault_ne_missingMember _)

private theorem analysisReports_of_course {ran : Except Fault Entries × Store σ}
    (course : t.Course .analysis first turns ran) (root : first.place = []) :
    t.AnalysisReports first turns ran := by
  have own : ∀ turn ∈ turns, turn.slot ≠ .topdown → ∃ maps : List Entries,
      turn.ctx.bottomup = some (maps.map .map) ∧ t.Reports .analysis turns turn maps := by
    intro turn member up
    obtain ⟨maps, told, length, collected⟩ := (course.accounted turn member).1.exists_results up
    exact ⟨maps, told, course.reports root member length collected⟩
  have down : ∀ turn ∈ turns, turn.slot = .topdown → turn.ctx.bottomup = none :=
    fun turn member => (course.accounted turn member).1.bottomup_of_down
  refine ⟨course, told_of_maps fun turn member => ?_, fun turn member => ?_, down, own, ?_⟩
  · by_cases way : turn.slot = .topdown
    · exact ⟨[], by rw [down turn member way]; rfl⟩
    · obtain ⟨maps, told, -⟩ := own turn member way
      exact ⟨maps, by rw [told]; rfl⟩
  · cases (course.accounted turn member).1 with
    | down => rfl
    | leaf _ readied | up _ _ _ _ _ readied => exact (Action.ok_inj readied).1.symm
  · intro turn member simple
    have up : turn.slot ≠ .topdown := by
      intro way
      have composite := (course.accounted turn member).1.composite_of_down way
      cases composite.symm.trans simple
    obtain ⟨maps, told, reports⟩ := own turn member up
    have childless := reports.length
    rw [traversed_eq_nil simple] at childless
    obtain rfl := List.length_eq_zero_iff.mp childless
    exact told

private theorem transformationReports_of_course {ran : Except Fault Expr × Store σ}
    (course : t.Course .transforming first turns ran) (root : first.place = []) :
    t.TransformationReports first turns ran := by
  have silent : ∀ turn ∈ turns, turn.ctx.bottomup = none :=
    fun turn member => (course.accounted turn member).1.bottomup_eq_none
  refine ⟨course, told_of_maps fun turn member => ⟨[], by rw [silent turn member]; rfl⟩, silent,
    fun turn member up => ?_, fun node number => course.arity_raised Shape.transforming_sound⟩
  obtain ⟨trunk, length, fits, collected⟩ : turn.given.trunk = turn.entry.node.trunk ∧
      turn.given.children.length = turn.entry.node.children.length ∧
      (traversed turn.given).length = (traversed turn.entry.node).length ∧
      t.Collected .transforming turns turn.place 0 (traversed turn.given) := by
    cases (course.accounted turn member).1 with
    | down => exact absurd rfl up
    | leaf simple readied =>
      obtain ⟨trunk, length⟩ := Node.made_of_clone readied
      have kind := Node.kind_eq_of_trunk_eq trunk
      have childless : traversed _ = [] := traversed_eq_nil (kind ▸ simple)
      refine ⟨trunk, length, ?_, ?_⟩
      · simp only [ownTurn, childless, traversed_eq_nil simple]
      · intro i result listed
        simp only [ownTurn, childless] at listed
        cases listed
    | up _ _ _ fits collected readied =>
      obtain ⟨trunk, rfl, length⟩ := Shape.made_of_rebuild readied
      exact ⟨trunk, length, fits, collected⟩
  exact ⟨trunk, length, course.reports root member fits collected⟩

/-- What is reported of the children is always fit for use. In every analysis the chain of a
composite is told one map for each visited child, in order, and that of a leaf none; so merging what
is told never fails. In every transformation nothing is told, the results of the visited children
always fit the node that is put together from them, and no run complains about their number unless a
handler did. -/
theorem children_are_reported (t : Traversal σ) (topdown : Value) (scope : Option Scope)
    (expr : Expr) (s : Store σ) :
    (∃ turns, t.AnalysisReports (rootEntry topdown scope expr s) turns
      ((t.analyse topdown (scope.getD Scope.empty) expr).run s)) ∧
    (∃ turns, t.TransformationReports (rootEntry topdown scope expr s) turns
      ((t.transform topdown (scope.getD Scope.empty) expr).run s)) ∧
    ∀ (node : Expr) (inner inherited : Value) (results : List Expr) (before after : Store σ),
      node.kind.isComposite = true →
      (t.visitAll .transforming inner inherited (traversed node)).run before =
        (.ok results, after) →
      (Shape.rebuild node results).Ends after fun made _ =>
        made.trunk = node.trunk ∧ traversed made = results := by
  refine ⟨?_, ?_, fun node inner inherited results before after composite ran => ?_⟩
  · obtain ⟨turns, course⟩ := t.exists_course Shape.analysis_sound (rootEntry topdown scope expr s)
    exact ⟨turns, analysisReports_of_course course rfl⟩
  · obtain ⟨turns, course⟩ :=
      t.exists_course Shape.transforming_sound (rootEntry topdown scope expr s)
    exact ⟨turns, transformationReports_of_course course rfl⟩
  · obtain ⟨made, s', rebuilt, -⟩ :=
      Shape.rebuild_framed composite (length_of_visitAll ran) after
    obtain ⟨trunk, children, -⟩ := Shape.made_of_rebuild rebuilt
    exact ⟨made, s', rebuilt, trunk, children⟩

end Traversal

end TreePass
