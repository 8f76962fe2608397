import TreePass.Proofs.Turns.Order

/-!
What is handed down and up. The way down into a node hands to each of its children the value that
its chain gave and the scope in force; the turn of its own shape sees that value too, and the
results with which the visits of its children ended. Every turn of a run is accounted for in this
way, back to the visit of the root.
-/

set_option autoImplicit false
set_option relaxedAutoImplicit false

namespace TreePass

variable {σ ρ : Type}

namespace Traversal

variable (t : Traversal σ) (shape : Shape σ ρ)

/-- How the visit that begins with an entry ends. -/
def outcome (e : Entry σ) : Except Fault ρ × Store σ :=
  (t.visit shape e.topdown e.inherited e.node).run e.start

def EntersChild (place : Position) (index : Nat) (topdown inherited : Value) (nodes : List Expr)
    (e : Entry σ) : Prop :=
  ∃ i, nodes[i]? = some e.node ∧ e.place = place ++ [index + i] ∧ e.topdown = topdown ∧
    e.inherited = inherited

/-- The way down into a node hands its value and the scope in force to the entry of a child. -/
def HandsDown (down : Turn σ) (e : Entry σ) : Prop :=
  down.slot = .topdown ∧ ∃ inner, (t.ending down).1 = .ok inner ∧
    EntersChild down.place 0 inner down.entry.scope (traversed down.entry.node) e

/-- An entry that a run comes to: the first one, or one that a turn hands down to. -/
def Arrives (first : Entry σ) (turns : List (Turn σ)) (e : Entry σ) : Prop :=
  e = first ∨ ∃ down ∈ turns, t.HandsDown down e

/-- The results of the children of a place are those that their visits ended with. -/
def Collected (turns : List (Turn σ)) (place : Position) (index : Nat) (results : List ρ) : Prop :=
  ∀ i result, results[i]? = some result →
    ∃ child ∈ turns, child.place = place ++ [index + i] ∧
      (t.outcome shape child.entry).1 = .ok result

/-- What a turn is about, among the turns of a run. -/
inductive Accounted (turns : List (Turn σ)) : Turn σ → Prop
  | down {e : Entry σ} {target : Option Identity} {s : Store σ}
      (composite : e.node.kind.isComposite = true)
      (search : (t.targetOf e.node e.scope).run e.start = (.ok target, s)) :
      Accounted turns (t.downTurn e target s)
  | leaf {e : Entry σ} {made : Expr} {s : Store σ} (simple : e.node.kind.isComposite = false)
      (readied : (shape.leaf e.node).run e.start = (.ok made, s)) :
      Accounted turns (t.ownTurn e none e.topdown (shape.bottomup []) made s)
  | up {e : Entry σ} {target : Option Identity} {inner : Value} {results : List ρ} {made : Expr}
      {s s₁ s₂ s₃ : Store σ} (composite : e.node.kind.isComposite = true)
      (entered : t.downTurn e target s ∈ turns)
      (down : t.ending (t.downTurn e target s) = (.ok inner, s₁))
      (length : results.length = (traversed e.node).length)
      (collected : t.Collected shape turns e.place 0 results)
      (readied : (shape.composite e.node results).run s₂ = (.ok made, s₃)) :
      Accounted turns (t.ownTurn e target inner (shape.bottomup results) made s₃)

variable {t shape}

theorem Collected.mono {turns more : List (Turn σ)} {place : Position} {index : Nat}
    {results : List ρ} (collected : t.Collected shape turns place index results)
    (subset : turns ⊆ more) : t.Collected shape more place index results := by
  intro i result listed
  obtain ⟨child, member, rest⟩ := collected i result listed
  exact ⟨child, subset member, rest⟩

theorem Accounted.mono {turns more : List (Turn σ)} {turn : Turn σ}
    (accounted : t.Accounted shape turns turn) (subset : turns ⊆ more) :
    t.Accounted shape more turn := by
  cases accounted with
  | down composite search => exact .down composite search
  | leaf simple readied => exact .leaf simple readied
  | up composite entered down length collected readied =>
    exact .up composite (subset entered) down length (collected.mono subset) readied

section

variable {turns : List (Turn σ)} {turn : Turn σ}

theorem Accounted.visit_isSome_iff (accounted : t.Accounted shape turns turn) :
    turn.ctx.visit.isSome ↔ turn.slot = .topdown := by
  cases accounted with
  | down => simp [downTurn, context]
  | leaf | up => simp [ownTurn, context, ofKind_ne_topdown]

theorem Accounted.ctx_eq (accounted : t.Accounted shape turns turn) :
    turn.ctx = t.context turn.ctx.topdown turn.entry.scope turn.ctx.bottomup turn.ctx.visit := by
  cases accounted with
  | down | leaf | up => rfl

theorem Accounted.slot_eq_ofKind (accounted : t.Accounted shape turns turn)
    (own : turn.slot ≠ .topdown) : turn.slot = Slot.ofKind turn.entry.node.kind := by
  cases accounted with
  | down => exact absurd rfl own
  | leaf | up => rfl

theorem Accounted.composite_of_down (accounted : t.Accounted shape turns turn)
    (down : turn.slot = .topdown) : turn.entry.node.kind.isComposite = true := by
  cases accounted with
  | down composite => exact composite
  | leaf | up => exact absurd down (ofKind_ne_topdown _)

theorem Accounted.exists_downTurn (accounted : t.Accounted shape turns turn)
    (down : turn.slot = .topdown) : ∃ e target s, turn = t.downTurn e target s ∧
      (t.targetOf e.node e.scope).run e.start = (.ok target, s) := by
  cases accounted with
  | down _ search => exact ⟨_, _, _, rfl, search⟩
  | leaf | up => exact absurd down (ofKind_ne_topdown _)

theorem Accounted.exists_down (accounted : t.Accounted shape turns turn) (member : turn ∈ turns)
    (composite : turn.entry.node.kind.isComposite = true) :
    ∃ down ∈ turns, down.slot = .topdown ∧ down.entry = turn.entry := by
  cases accounted with
  | down => exact ⟨_, member, rfl, rfl⟩
  | leaf simple => cases composite.symm.trans simple
  | up _ entered => exact ⟨_, entered, rfl, rfl⟩

theorem Accounted.bottomup_of_down (accounted : t.Accounted shape turns turn)
    (down : turn.slot = .topdown) : turn.ctx.bottomup = none := by
  obtain ⟨e, target, s, rfl, -⟩ := accounted.exists_downTurn down
  rfl

theorem traversed_eq_nil {node : Expr} (simple : node.kind.isComposite = false) :
    traversed node = [] := by
  cases node with
  | atomic | symbol | primitive => rfl
  | pairlist | call => cases simple

theorem Accounted.exists_results (accounted : t.Accounted shape turns turn)
    (own : turn.slot ≠ .topdown) : ∃ results, turn.ctx.bottomup = shape.bottomup results ∧
      results.length = (traversed turn.entry.node).length ∧
        t.Collected shape turns turn.place 0 results := by
  cases accounted with
  | down => exact absurd rfl own
  | up _ _ _ length collected _ => exact ⟨_, rfl, length, collected⟩
  | @leaf e _ _ simple _ =>
    have none_there := congrArg List.length (traversed_eq_nil simple)
    refine ⟨[], rfl, none_there.symm, fun i result listed => ?_⟩
    cases listed

end

theorem Visited.exists_turn {e : Entry σ} {turns : List (Turn σ)} {result : ρ} {after : Store σ}
    (visited : t.Visited shape noLeaves e turns (.ok result) after) :
    ∃ turn ∈ turns, turn.entry = e := by
  cases visited with
  | replaced there => cases there
  | leaf | skipped | done => exact ⟨_, List.mem_cons_self, rfl⟩

theorem EntersChild.later {place : Position} {index : Nat} {topdown inherited : Value} {node : Expr}
    {rest : List Expr} {e : Entry σ}
    (enters : EntersChild place (index + 1) topdown inherited rest e) :
    EntersChild place index topdown inherited (node :: rest) e := by
  obtain ⟨i, listed, placed, others⟩ := enters
  exact ⟨i + 1, listed, by rw [placed, Nat.add_assoc, Nat.add_comm 1 i], others⟩

theorem subset_around (first last : Turn σ) {inside : List (Turn σ)} :
    inside ⊆ first :: (inside ++ [last]) :=
  fun _ listed => List.mem_cons_of_mem _ (List.mem_append_left _ listed)

mutual

theorem Visited.accounted {e : Entry σ} {turns : List (Turn σ)} {outcome : Except Fault ρ}
    {after : Store σ} (visited : t.Visited shape noLeaves e turns outcome after) :
    ∀ turn ∈ turns, t.Accounted shape turns turn ∧ t.Arrives e turns turn.entry := by
  match visited with
  | .replaced there _ => cases there
  | .lost .. => simp
  | .leaf _ simple readied _ =>
    intro turn member
    obtain rfl := List.mem_singleton.mp member
    exact ⟨.leaf simple readied, Or.inl rfl⟩
  | .stopped _ composite search _ _ | .skipped _ composite search _ _ =>
    intro turn member
    obtain rfl := List.mem_singleton.mp member
    exact ⟨.down composite search, Or.inl rfl⟩
  | .broken _ composite search down below =>
    obtain ⟨inside, -⟩ := below.accounted
    intro turn member
    rcases List.mem_cons.mp member with rfl | member
    · exact ⟨.down composite search, Or.inl rfl⟩
    · obtain ⟨own, handed⟩ := inside turn member
      refine ⟨own.mono (List.subset_cons_self _ _), Or.inr ?_⟩
      rcases handed with child | ⟨other, listed, hands⟩
      · exact ⟨_, List.mem_cons_self, rfl, _, congrArg Prod.fst down, child⟩
      · exact ⟨other, List.mem_cons_of_mem _ listed, hands⟩
  | .done _ composite search down below readied _ =>
    obtain ⟨inside, collected⟩ := below.accounted
    have length := below.length
    intro turn member
    rcases List.mem_cons.mp member with rfl | member
    · exact ⟨.down composite search, Or.inl rfl⟩
    · rcases List.mem_append.mp member with member | member
      · obtain ⟨own, handed⟩ := inside turn member
        refine ⟨own.mono (subset_around _ _), Or.inr ?_⟩
        rcases handed with child | ⟨other, listed, hands⟩
        · exact ⟨_, List.mem_cons_self, rfl, _, congrArg Prod.fst down, child⟩
        · exact ⟨other, subset_around _ _ listed, hands⟩
      · obtain rfl := List.mem_singleton.mp member
        have results := collected _ rfl
        exact ⟨.up composite List.mem_cons_self down length (results.mono (subset_around _ _))
          readied, Or.inl rfl⟩
termination_by structural visited

theorem VisitedAll.accounted {place : Position} {index : Nat} {topdown inherited : Value}
    {nodes : List Expr} {s after : Store σ} {turns : List (Turn σ)}
    {outcome : Except Fault (List ρ)}
    (visited : t.VisitedAll shape noLeaves place index topdown inherited nodes s turns outcome
      after) :
    (∀ turn ∈ turns, t.Accounted shape turns turn ∧
      (EntersChild place index topdown inherited nodes turn.entry ∨
        ∃ down ∈ turns, t.HandsDown down turn.entry)) ∧
    ∀ results, outcome = .ok results → t.Collected shape turns place index results := by
  match visited with
  | .nil =>
    refine ⟨by simp, fun results given => ?_⟩
    obtain rfl := Except.ok.inj given
    intro i result listed
    cases listed
  | .stop first =>
    have own := first.accounted
    refine ⟨fun turn member => ?_, fun results given => by cases given⟩
    obtain ⟨accounted, comes⟩ := own turn member
    refine ⟨accounted, comes.imp_left fun same => ?_⟩
    rw [same]
    exact ⟨0, rfl, rfl, rfl, rfl⟩
  | .cons first others =>
    have own := first.accounted
    obtain ⟨inside, collected⟩ := others.accounted
    have ended := congrArg Prod.fst first.run
    obtain ⟨child, listed, childEntry⟩ := first.exists_turn
    refine ⟨fun turn member => ?_, fun results given => ?_⟩
    · rcases List.mem_append.mp member with member | member
      · obtain ⟨accounted, comes⟩ := own turn member
        refine ⟨accounted.mono (List.subset_append_left _ _), ?_⟩
        rcases comes with same | ⟨down, there, hands⟩
        · rw [same]
          exact Or.inl ⟨0, rfl, rfl, rfl, rfl⟩
        · exact Or.inr ⟨down, List.mem_append_left _ there, hands⟩
      · obtain ⟨accounted, comes⟩ := inside turn member
        refine ⟨accounted.mono (List.subset_append_right _ _), ?_⟩
        rcases comes with enters | ⟨down, there, hands⟩
        · exact Or.inl enters.later
        · exact Or.inr ⟨down, List.mem_append_right _ there, hands⟩
    · obtain ⟨tail, rfl, rfl⟩ := Action.exists_of_map_eq_ok given
      intro i result found
      cases i with
      | zero =>
        obtain rfl := Option.some.inj found
        refine ⟨child, List.mem_append_left _ listed, ?_, ?_⟩
        · rw [Turn.place, childEntry]
          rfl
        · rw [childEntry]
          exact ended
      | succ i =>
        obtain ⟨other, there, placed, gave⟩ := collected tail rfl i result found
        exact ⟨other, List.mem_append_right _ there,
          by rw [placed, Nat.add_assoc, Nat.add_comm 1 i], gave⟩
termination_by structural visited

end

/-- The course of a run: its turns with what becomes of them, their order, what happens between them
and where each of them comes from. -/
structure Course (t : Traversal σ) (shape : Shape σ ρ) (first : Entry σ) (turns : List (Turn σ))
    (ran : Except Fault ρ × Store σ) : Prop where
  visited : t.Visited shape noLeaves first turns ran.1 ran.2
  ordered : turns.Pairwise Turn.Precedes
  linked : t.Linked first.start turns ran.2
  accounted : ∀ turn ∈ turns, t.Accounted shape turns turn ∧ t.Arrives first turns turn.entry

theorem exists_course (t : Traversal σ) {shape : Shape σ ρ} (sound : shape.Sound)
    (first : Entry σ) : ∃ turns, t.Course shape first turns (t.outcome shape first) := by
  obtain ⟨turns, visited⟩ := (run_visit_iff (t := t) sound first).mp rfl
  exact ⟨turns, visited, visited.ordered, visited.linked sound, visited.accounted⟩

def rootEntry (topdown : Value) (scope : Option Scope) (expr : Expr) (s : Store σ) : Entry σ :=
  ⟨[], expr, startValue topdown, .scope (scope.getD Scope.empty), s⟩

end Traversal

end TreePass
