import TreePass.Proofs.Dispatch.Tracing
import TreePass.Proofs.Refilling

/-!
The turns of a traversal. A turn is one run of a handler chain, with the visit it belongs to and
the circumstances its handlers are told. Every run of a traversal, however it ends, is a sequence
of turns; a visit with its turns says everything that can happen at a node. Some places may hold
leaves with visits of their own, to which no chain belongs.
-/

set_option autoImplicit false
set_option relaxedAutoImplicit false

namespace TreePass

variable {σ ρ : Type}

/-- Where a visited node stands: which of the visited children to take on each step down. -/
abbrev Position := List Nat

/-- The beginning of a visit: the node and its place, what is handed down to it, and the store. -/
structure Entry (σ : Type) where
  place : Position
  node : Expr
  topdown : Value
  inherited : Value
  start : Store σ

/-- The scope in force at a node: its stamp when its visit begins, or the inherited one. -/
def Entry.scope (e : Entry σ) : Value := (e.start.stamp? e.node).getD e.inherited

/-- One run of a handler chain: in which visit, of which slot and target, on which node, in which
circumstances and from which store. -/
structure Turn (σ : Type) where
  entry : Entry σ
  slot : Slot
  target : Option Identity
  given : Expr
  ctx : Context σ
  before : Store σ

def Turn.place (turn : Turn σ) : Position := turn.entry.place

namespace Traversal

variable (t : Traversal σ) (shape : Shape σ ρ)

/-- How the chain of a turn ends. -/
def ending (turn : Turn σ) : Except Fault Value × Store σ :=
  (invoke turn.ctx (t.config.fullChain turn.slot turn.target) turn.given).run turn.before

def downTurn (e : Entry σ) (target : Option Identity) (s : Store σ) : Turn σ where
  entry := e
  slot := .topdown
  target := target
  given := e.node
  ctx := t.context e.topdown e.scope none (some s.visits)
  before := { s with visits := s.visits + 1 }

def ownTurn (e : Entry σ) (target : Option Identity) (topdown : Value)
    (bottomup : Option (List Value)) (made : Expr) (s : Store σ) : Turn σ where
  entry := e
  slot := Slot.ofKind e.node.kind
  target := target
  given := made
  ctx := t.context topdown e.scope bottomup none
  before := s

/-- How a visit ends with the turn of its own shape: the result must have the shape of the mode. -/
def conclude (turn : Turn σ) : Except Fault ρ × Store σ :=
  match t.ending turn with
  | (.ok value, s) =>
    (t.finish shape turn.slot turn.entry.node.kind (some turn.given) value).run s
  | (.error fault, s) => (.error fault, s)

section

variable (leaves : Position → Option (Action σ ρ))

mutual

/-- A visit with its turns: how it ended and which store it left. -/
inductive Visited : Entry σ → List (Turn σ) → Except Fault ρ → Store σ → Prop
  /-- The place holds a leaf with a visit of its own. -/
  | replaced {e : Entry σ} {leaf : Action σ ρ} {outcome : Except Fault ρ} {after : Store σ}
      (there : leaves e.place = some leaf) (ran : leaf.run e.start = (outcome, after)) :
      Visited e [] outcome after
  | leaf {e : Entry σ} {made : Expr} {s after : Store σ} {outcome : Except Fault ρ}
      (kept : leaves e.place = none) (simple : e.node.kind.isComposite = false)
      (readied : (shape.leaf e.node).run e.start = (.ok made, s))
      (own : t.conclude shape (t.ownTurn e none e.topdown (shape.bottomup []) made s) =
        (outcome, after)) :
      Visited e [t.ownTurn e none e.topdown (shape.bottomup []) made s] outcome after
  /-- The search for a target failed. -/
  | lost {e : Entry σ} {fault : Fault} {after : Store σ}
      (kept : leaves e.place = none) (composite : e.node.kind.isComposite = true)
      (search : (t.targetOf e.node e.scope).run e.start = (.error fault, after)) :
      Visited e [] (.error fault) after
  /-- The chain on the way down failed, and not by a skip of this visit. -/
  | stopped {e : Entry σ} {target : Option Identity} {fault : Fault} {s after : Store σ}
      (kept : leaves e.place = none) (composite : e.node.kind.isComposite = true)
      (search : (t.targetOf e.node e.scope).run e.start = (.ok target, s))
      (down : t.ending (t.downTurn e target s) = (.error fault, after))
      (foreign : ∀ value, fault ≠ .skip s.visits value) :
      Visited e [t.downTurn e target s] (.error fault) after
  | skipped {e : Entry σ} {target : Option Identity} {value : Value} {s s₁ after : Store σ}
      {outcome : Except Fault ρ}
      (kept : leaves e.place = none) (composite : e.node.kind.isComposite = true)
      (search : (t.targetOf e.node e.scope).run e.start = (.ok target, s))
      (down : t.ending (t.downTurn e target s) = (.error (.skip s.visits value), s₁))
      (ended : (t.endSkipped shape e.node value).run s₁ = (outcome, after)) :
      Visited e [t.downTurn e target s] outcome after
  /-- The visit of a child failed. -/
  | broken {e : Entry σ} {target : Option Identity} {inner : Value} {fault : Fault}
      {s s₁ after : Store σ} {inside : List (Turn σ)}
      (kept : leaves e.place = none) (composite : e.node.kind.isComposite = true)
      (search : (t.targetOf e.node e.scope).run e.start = (.ok target, s))
      (down : t.ending (t.downTurn e target s) = (.ok inner, s₁))
      (below : VisitedAll e.place 0 inner e.scope (traversed e.node) s₁ inside (.error fault)
        after) :
      Visited e (t.downTurn e target s :: inside) (.error fault) after
  | done {e : Entry σ} {target : Option Identity} {inner : Value} {results : List ρ} {made : Expr}
      {s s₁ s₂ s₃ after : Store σ} {inside : List (Turn σ)} {outcome : Except Fault ρ}
      (kept : leaves e.place = none) (composite : e.node.kind.isComposite = true)
      (search : (t.targetOf e.node e.scope).run e.start = (.ok target, s))
      (down : t.ending (t.downTurn e target s) = (.ok inner, s₁))
      (below : VisitedAll e.place 0 inner e.scope (traversed e.node) s₁ inside (.ok results) s₂)
      (readied : (shape.composite e.node results).run s₂ = (.ok made, s₃))
      (own : t.conclude shape (t.ownTurn e target inner (shape.bottomup results) made s₃) =
        (outcome, after)) :
      Visited e (t.downTurn e target s ::
        (inside ++ [t.ownTurn e target inner (shape.bottomup results) made s₃])) outcome after

/-- Visits of the children of a place from a number on, up to the first that fails. -/
inductive VisitedAll : Position → Nat → Value → Value → List Expr → Store σ → List (Turn σ) →
    Except Fault (List ρ) → Store σ → Prop
  | nil {place : Position} {index : Nat} {topdown inherited : Value} {s : Store σ} :
      VisitedAll place index topdown inherited [] s [] (.ok []) s
  | stop {place : Position} {index : Nat} {topdown inherited : Value} {node : Expr}
      {rest : List Expr} {s after : Store σ} {turns : List (Turn σ)} {fault : Fault}
      (first : Visited ⟨place ++ [index], node, topdown, inherited, s⟩ turns (.error fault) after) :
      VisitedAll place index topdown inherited (node :: rest) s turns (.error fault) after
  | cons {place : Position} {index : Nat} {topdown inherited : Value} {node : Expr}
      {rest : List Expr} {s s₁ after : Store σ} {turns later : List (Turn σ)} {result : ρ}
      {outcome : Except Fault (List ρ)}
      (first : Visited ⟨place ++ [index], node, topdown, inherited, s⟩ turns (.ok result) s₁)
      (others : VisitedAll place (index + 1) topdown inherited rest s₁ later outcome after) :
      VisitedAll place index topdown inherited (node :: rest) s (turns ++ later)
        (outcome.map (result :: ·)) after

end

end

def noLeaves : Position → Option (Action σ ρ) := fun _ => none

end Traversal

namespace Action

variable {α β : Type}

private theorem run_bind_pure {action : Action σ α} {outcome : Except Fault α} {s s' : Store σ}
    (ran : action.run s = (outcome, s')) (f : α → β) :
    (action >>= fun a => pure (f a)).run s = (outcome.map f, s') := by
  cases outcome with
  | ok a => exact run_bind_of_ok ran
  | error fault => exact run_bind_of_error ran

theorem exists_of_map_eq_ok {outcome : Except Fault α} {f : α → β} {b : β}
    (given : outcome.map f = .ok b) : ∃ a, outcome = .ok a ∧ f a = b := by
  cases outcome with
  | ok a => exact ⟨a, rfl, Except.ok.inj given⟩
  | error fault => cases given

theorem run_catchSkip_of_fault {action : Action σ α} {visit : Nat} {s s' : Store σ} {fault : Fault}
    (ran : action.run s = (.error fault, s')) (foreign : ∀ value, fault ≠ .skip visit value) :
    (catchSkip visit action).run s = (.error fault, s') := by
  cases fault with
  | skip other value =>
    have different : other ≠ visit := fun same => foreign value (by rw [same])
    simp only [catchSkip, ran, different, ↓reduceIte]
  | _ => simp only [catchSkip, ran]

end Action

/-- A shape that always readies a node, and that takes a result of the right kind without fail; new
nodes are all that it makes. -/
structure Shape.Sound (shape : Shape σ ρ) : Prop where
  leaf : ∀ node (s : Store σ), (shape.leaf node).Ends s fun _ s' => Store.Frame [] s s'
  composite : ∀ node results (s : Store σ), node.kind.isComposite = true →
    results.length = (Traversal.traversed node).length →
      (shape.composite node results).Ends s fun _ s' => Store.Frame [] s s'
  accept : ∀ made value, ∀ result ∈ shape.accept made value, ∀ s : Store σ,
    result.Ends s fun _ s' => Store.Frame [] s s'

namespace Shape

theorem analysis_sound : (analysis : Shape σ Entries).Sound where
  leaf node s := Action.ends_pure (.refl [] s)
  composite node results s _ _ := Action.ends_pure (.refl [] s)
  accept made value result accepted s := by
    obtain ⟨entries, -, rfl⟩ := Option.map_eq_some_iff.mp accepted
    exact Action.ends_pure (.refl [] s)

private theorem clone_framed (node : Expr) (s : Store σ) :
    node.clone.Ends s fun _ s' => Store.Frame [] s s' :=
  (node.clone_ends s).mono fun _ _ made => made.2.frame

theorem rebuild_framed {node : Expr} (composite : node.kind.isComposite = true)
    {results : List Expr} (fits : results.length = (Traversal.traversed node).length)
    (s : Store σ) : (rebuild node results).Ends s fun _ s' => Store.Frame [] s s' := by
  cases node with
  | atomic | symbol | primitive => cases composite
  | pairlist tag params => exact .of_run (Node.run_withChildren_of_fits fits s) (s.frame_push _)
  | call tag callee args =>
    refine (clone_framed callee s).bind fun copy s₁ copied => ?_
    have room : (copy :: results).length = (Node.call tag callee args).children.length :=
      congrArg Nat.succ fits
    exact .of_run (Node.run_withChildren_of_fits room s₁) (copied.trans (s₁.frame_push _))

theorem transforming_sound : (transforming : Shape σ Expr).Sound where
  leaf := clone_framed
  composite _ _ s composite fits := rebuild_framed composite fits s
  accept made value result accepted s := by
    obtain ⟨node, -, rfl⟩ := Option.map_eq_some_iff.mp accepted
    cases made with
    | none => exact clone_framed node s
    | some fresh =>
      simp only
      split_ifs
      · exact Action.ends_pure (.refl [] s)
      · exact clone_framed node s

end Shape

namespace Traversal

variable {t : Traversal σ} {shape : Shape σ ρ}

theorem run_descend (e : Entry σ) (target : Option Identity) (s : Store σ) :
    (t.descend target e.topdown e.scope e.node).run s =
      (Action.catchSkip s.visits (invoke (t.downTurn e target s).ctx
        (t.config.fullChain .topdown target) e.node)).run (t.downTurn e target s).before := by
  rw [descend, Action.run_bind_of_ok (Action.run_newVisit s)]
  rfl

theorem run_descend_of_ok {e : Entry σ} {target : Option Identity} {s s₁ : Store σ} {inner : Value}
    (down : t.ending (t.downTurn e target s) = (.ok inner, s₁)) :
    (t.descend target e.topdown e.scope e.node).run s = (.ok (.done inner), s₁) := by
  rw [run_descend]
  exact Action.run_catchSkip_of_ok down

theorem run_descend_of_skip {e : Entry σ} {target : Option Identity} {s s₁ : Store σ}
    {value : Value}
    (down : t.ending (t.downTurn e target s) = (.error (.skip s.visits value), s₁)) :
    (t.descend target e.topdown e.scope e.node).run s = (.ok (.skipped value), s₁) := by
  rw [run_descend]
  exact Action.run_catchSkip_of_skip down

theorem run_descend_of_fault {e : Entry σ} {target : Option Identity} {s s₁ : Store σ}
    {fault : Fault} (down : t.ending (t.downTurn e target s) = (.error fault, s₁))
    (foreign : ∀ value, fault ≠ .skip s.visits value) :
    (t.descend target e.topdown e.scope e.node).run s = (.error fault, s₁) := by
  rw [run_descend]
  exact Action.run_catchSkip_of_fault down foreign

/-- Once a node is readied, the turn of its shape and the check of its result are all that is left
of the visit. -/
theorem run_invoke_finish (turn : Turn σ) :
    (invoke turn.ctx (t.config.fullChain turn.slot turn.target) turn.given >>= fun value =>
      t.finish shape turn.slot turn.entry.node.kind (some turn.given) value).run turn.before =
      t.conclude shape turn := by
  cases ran : t.ending turn with
  | mk outcome s =>
    have invoked := ran
    rw [ending] at invoked
    cases outcome with
    | ok value => rw [Action.run_bind_of_ok invoked, conclude, ran]
    | error fault => rw [Action.run_bind_of_error invoked, conclude, ran]

theorem run_visitLeaf {e : Entry σ} {made : Expr} {s : Store σ}
    (readied : (shape.leaf e.node).run e.start = (.ok made, s)) :
    (t.visitLeaf shape e.topdown e.inherited e.node).run e.start =
      t.conclude shape (t.ownTurn e none e.topdown (shape.bottomup []) made s) := by
  rw [visitLeaf, Action.run_bind_of_ok (run_scopeAt e.node e.inherited e.start)]
  simp only
  rw [Action.run_bind_of_ok readied]
  exact run_invoke_finish (t.ownTurn e none e.topdown (shape.bottomup []) made s)

theorem run_ascend {e : Entry σ} {target : Option Identity} {inner : Value} {results : List ρ}
    {made : Expr} {s s₁ : Store σ}
    (readied : (shape.composite e.node results).run s = (.ok made, s₁)) :
    (t.ascend shape target inner e.scope e.node results).run s =
      t.conclude shape (t.ownTurn e target inner (shape.bottomup results) made s₁) := by
  rw [ascend, Action.run_bind_of_ok readied]
  exact run_invoke_finish (t.ownTurn e target inner (shape.bottomup results) made s₁)

private theorem run_visit_of_composite {e : Entry σ} (composite : e.node.kind.isComposite = true)
    {target : Option Identity} {s : Store σ}
    (search : (t.targetOf e.node e.scope).run e.start = (.ok target, s)) :
    (t.visit shape e.topdown e.inherited e.node).run e.start =
      (t.descend target e.topdown e.scope e.node >>= fun outcome =>
        match outcome with
        | .skipped value => t.endSkipped shape e.node value
        | .done inner => do
          let results ← t.visitAll shape inner e.scope (traversed e.node)
          t.ascend shape target inner e.scope e.node results).run s := by
  rw [visit_of_composite t shape composite,
    Action.run_bind_of_ok (run_scopeAt e.node e.inherited e.start)]
  exact Action.run_bind_of_ok search

mutual

theorem Visited.run {e : Entry σ} {turns : List (Turn σ)} {outcome : Except Fault ρ}
    {after : Store σ} (visited : t.Visited shape noLeaves e turns outcome after) :
    (t.visit shape e.topdown e.inherited e.node).run e.start = (outcome, after) := by
  match visited with
  | .replaced there _ => cases there
  | .leaf _ simple readied own =>
    rw [visit_of_leaf t shape simple, run_visitLeaf readied]
    exact own
  | .lost _ composite search =>
    rw [visit_of_composite t shape composite, Action.run_bind_of_ok (run_scopeAt _ _ _)]
    exact Action.run_bind_of_error search
  | .stopped _ composite search down foreign =>
    rw [run_visit_of_composite composite search]
    exact Action.run_bind_of_error (run_descend_of_fault down foreign)
  | .skipped _ composite search down ended =>
    rw [run_visit_of_composite composite search, Action.run_bind_of_ok (run_descend_of_skip down)]
    exact ended
  | .broken _ composite search down below =>
    rw [run_visit_of_composite composite search, Action.run_bind_of_ok (run_descend_of_ok down)]
    exact Action.run_bind_of_error below.run
  | .done _ composite search down below readied own =>
    rw [run_visit_of_composite composite search, Action.run_bind_of_ok (run_descend_of_ok down)]
    exact (Action.run_bind_of_ok below.run).trans ((run_ascend readied).trans own)
termination_by structural visited

theorem VisitedAll.run {place : Position} {index : Nat} {topdown inherited : Value}
    {nodes : List Expr} {s after : Store σ} {turns : List (Turn σ)}
    {outcome : Except Fault (List ρ)}
    (visited : t.VisitedAll shape noLeaves place index topdown inherited nodes s turns outcome
      after) :
    (t.visitAll shape topdown inherited nodes).run s = (outcome, after) := by
  match visited with
  | .nil => rfl
  | .stop first => exact Action.run_bind_of_error first.run
  | .cons first others =>
    have later := others.run
    exact (Action.run_bind_of_ok first.run).trans (Action.run_bind_pure later (_ :: ·))
termination_by structural visited

end

theorem VisitedAll.length {leaves : Position → Option (Action σ ρ)} {place : Position} {index : Nat}
    {topdown inherited : Value} {nodes : List Expr} {s after : Store σ} {turns : List (Turn σ)}
    {results : List ρ}
    (visited : t.VisitedAll shape leaves place index topdown inherited nodes s turns (.ok results)
      after) : results.length = nodes.length := by
  induction nodes generalizing index s turns results with
  | nil =>
    cases visited
    rfl
  | cons node rest ih =>
    -- The outcome is an index of the relation; only a variable can be matched with all its rules.
    generalize given : (Except.ok results : Except Fault (List ρ)) = whole at visited
    cases visited with
    | stop first => cases given
    | cons first others =>
      obtain ⟨later, rfl, rfl⟩ := Action.exists_of_map_eq_ok given.symm
      rw [List.length_cons, List.length_cons, ih others]

private theorem visitedAll_of_each {nodes : List Expr}
    (each : ∀ n ∈ nodes, ∀ e : Entry σ, e.node = n →
      ∃ turns outcome after, t.Visited shape noLeaves e turns outcome after)
    (place : Position) (index : Nat) (topdown inherited : Value) (s : Store σ) :
    ∃ turns outcome after,
      t.VisitedAll shape noLeaves place index topdown inherited nodes s turns outcome after := by
  induction nodes generalizing index s with
  | nil => exact ⟨[], .ok [], s, .nil⟩
  | cons node rest ih =>
    obtain ⟨turns, outcome, s₁, first⟩ :=
      each node List.mem_cons_self ⟨place ++ [index], node, topdown, inherited, s⟩ rfl
    cases outcome with
    | error fault => exact ⟨turns, .error fault, s₁, .stop first⟩
    | ok result =>
      obtain ⟨later, outcomes, after, others⟩ :=
        ih (fun n member => each n (List.mem_cons_of_mem _ member)) (index + 1) s₁
      exact ⟨turns ++ later, outcomes.map (result :: ·), after, .cons first others⟩

private theorem visited_of_composite (sound : shape.Sound) {e : Entry σ}
    (composite : e.node.kind.isComposite = true)
    (each : ∀ n ∈ traversed e.node, ∀ e' : Entry σ, e'.node = n →
      ∃ turns outcome after, t.Visited shape noLeaves e' turns outcome after) :
    ∃ turns outcome after, t.Visited shape noLeaves e turns outcome after := by
  cases search : (t.targetOf e.node e.scope).run e.start with
  | mk found s =>
    cases found with
    | error fault => exact ⟨[], .error fault, s, .lost rfl composite search⟩
    | ok target =>
      cases down : t.ending (t.downTurn e target s) with
      | mk answer s₁ =>
        cases answer with
        | error fault =>
          by_cases own : ∃ value, fault = .skip s.visits value
          · obtain ⟨value, rfl⟩ := own
            exact ⟨_, _, _, .skipped rfl composite search down rfl⟩
          · exact ⟨_, _, _, .stopped rfl composite search down fun value same => own ⟨value, same⟩⟩
        | ok inner =>
          obtain ⟨inside, outcome, s₂, below⟩ := visitedAll_of_each each e.place 0 inner e.scope s₁
          cases outcome with
          | error fault => exact ⟨_, _, _, .broken rfl composite search down below⟩
          | ok results =>
            obtain ⟨made, s₃, readied, -⟩ :=
              sound.composite e.node results s₂ composite below.length
            exact ⟨_, _, _, .done rfl composite search down below readied rfl⟩

private theorem visited_exists (sound : shape.Sound) (e : Entry σ) :
    ∃ turns outcome after, t.Visited shape noLeaves e turns outcome after := by
  obtain ⟨place, node, topdown, inherited, start⟩ := e
  induction node using Node.induction generalizing place topdown inherited start with
  | atomic | symbol | primitive =>
    obtain ⟨made, s, readied, -⟩ := sound.leaf _ start
    exact ⟨_, _, _, .leaf rfl rfl readied rfl⟩
  | pairlist tag params ih =>
    refine visited_of_composite sound rfl fun n member e' same => ?_
    obtain ⟨p, listed, given⟩ := List.mem_filterMap.mp member
    obtain ⟨place', node', topdown', inherited', start'⟩ := e'
    obtain rfl : node' = n := same
    exact ih p listed node' given place' topdown' inherited' start'
  -- The callee is never visited, so nothing is needed of it.
  | call tag callee args _ ih =>
    refine visited_of_composite sound rfl fun n member e' same => ?_
    obtain ⟨a, listed, rfl⟩ := List.mem_map.mp member
    obtain ⟨place', node', topdown', inherited', start'⟩ := e'
    obtain rfl : node' = a.2 := same
    exact ih a listed place' topdown' inherited' start'

theorem run_visit_iff (sound : shape.Sound) (e : Entry σ) {outcome : Except Fault ρ}
    {after : Store σ} :
    (t.visit shape e.topdown e.inherited e.node).run e.start = (outcome, after) ↔
      ∃ turns, t.Visited shape noLeaves e turns outcome after := by
  constructor
  · intro ran
    obtain ⟨turns, outcome', after', visited⟩ := visited_exists (t := t) sound e
    obtain ⟨rfl, rfl⟩ := Prod.mk.inj (visited.run.symm.trans ran)
    exact ⟨turns, visited⟩
  · rintro ⟨turns, visited⟩
    exact visited.run

end Traversal

end TreePass
