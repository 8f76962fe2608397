import TreePass.Proofs.Turns.Handing
import Mathlib.Data.List.Infix
import Mathlib.Data.List.Induction

/-!
Threads through a run. The scope that handlers are told is the stamp of the nearest stamped node at
or above theirs. What is passed down to them comes from the chain on the way down into the node
above; after the children have been visited, it comes from the chain on the way down into their own.
-/

set_option autoImplicit false
set_option relaxedAutoImplicit false

namespace TreePass

variable {σ ρ : Type}

def Turn.Begins (turn : Turn σ) : Prop :=
  turn.slot = .topdown ∨ turn.entry.node.kind.isComposite = false

namespace Traversal

def stampAt (turns : List (Turn σ)) (place : Position) : Option Value :=
  (turns.find? fun turn => turn.place == place).bind fun turn =>
    turn.entry.start.stamp? turn.entry.node

/-- The stamp of the nearest stamped node at or above a place; if there is none, the given scope. -/
def nearest (turns : List (Turn σ)) (given : Value) (place : Position) : Value :=
  (place.inits.reverse.findSome? (stampAt turns)).getD given

private theorem nearest_append (turns : List (Turn σ)) (given : Value) (place : Position)
    (i : Nat) : nearest turns given (place ++ [i]) =
      (stampAt turns (place ++ [i])).getD (nearest turns given place) := by
  have longer : (place ++ [i]).inits.reverse = (place ++ [i]) :: place.inits.reverse := by
    simp [List.inits_append]
  rw [nearest, nearest, longer, List.findSome?_cons]
  cases stampAt turns (place ++ [i]) with
  | none => rfl
  | some stamp => rfl

private theorem stampAt_eq {turns : List (Turn σ)} (ordered : turns.Pairwise Turn.Precedes)
    {turn : Turn σ} (member : turn ∈ turns) :
    stampAt turns turn.place = turn.entry.start.stamp? turn.entry.node := by
  unfold stampAt
  cases found : turns.find? fun other => other.place == turn.place with
  | none =>
    have absent := List.find?_eq_none.mp found turn member
    simp at absent
  | some other =>
    have listed := List.mem_of_find?_eq_some found
    have here : other.place = turn.place := by simpa using List.find?_some found
    rw [Option.bind_some, entry_eq_of_place_eq ordered listed member here]

variable {t : Traversal σ} {shape : Shape σ ρ}

theorem Accounted.scope_eq {turns : List (Turn σ)} {turn : Turn σ}
    (accounted : t.Accounted shape turns turn) : turn.ctx.scope = turn.entry.scope := by
  cases accounted with
  | down | leaf | up => rfl

theorem Accounted.topdown_eq {turns : List (Turn σ)} {turn : Turn σ}
    (accounted : t.Accounted shape turns turn) (begins : turn.Begins) :
    turn.ctx.topdown = turn.entry.topdown := by
  cases accounted with
  | down | leaf => rfl
  | up composite =>
    rcases begins with down | simple
    · exact absurd down (ofKind_ne_topdown _)
    · cases composite.symm.trans simple

/-- A turn that does not begin its visit is told what the chain on the way down gave. -/
theorem Accounted.kept_topdown {turns : List (Turn σ)} {turn : Turn σ}
    (accounted : t.Accounted shape turns turn) (later : ¬ turn.Begins) :
    ∃ down ∈ turns, down.slot = .topdown ∧ down.entry = turn.entry ∧
      (t.ending down).1 = .ok turn.ctx.topdown := by
  cases accounted with
  | down => exact absurd (Or.inl rfl) later
  | leaf simple => exact absurd (Or.inr simple) later
  | up _ entered down => exact ⟨_, entered, rfl, rfl, congrArg Prod.fst down⟩

theorem Arrives.from_above {first e : Entry σ} {turns : List (Turn σ)}
    (arrives : t.Arrives first turns e) (root : first.place = []) {place : Position} {i : Nat}
    (below : e.place = place ++ [i]) :
    ∃ down ∈ turns, t.HandsDown down e ∧ down.place = place := by
  rcases arrives with rfl | ⟨down, member, topdown, inner, gave, j, child, placed, rest⟩
  · rw [root] at below
    simp at below
  · rw [placed] at below
    obtain ⟨same, -⟩ := List.append_inj' below rfl
    exact ⟨down, member, ⟨topdown, inner, gave, j, child, placed, rest⟩, same⟩

theorem Arrives.at_root {first e : Entry σ} {turns : List (Turn σ)}
    (arrives : t.Arrives first turns e) (root : e.place = []) : e = first := by
  rcases arrives with same | ⟨down, -, -, inner, -, j, -, placed, -⟩
  · exact same
  · rw [root] at placed
    simp at placed

variable {first : Entry σ} {turns : List (Turn σ)} {ran : Except Fault ρ × Store σ}

private theorem Course.scope_eq_nearest (course : t.Course shape first turns ran)
    (root : first.place = []) {turn : Turn σ} (member : turn ∈ turns) :
    turn.entry.scope = nearest turns first.inherited turn.place := by
  generalize placed : turn.place = place
  induction place using List.reverseRecOn generalizing turn with
  | nil =>
    have stamp := stampAt_eq course.ordered member
    have same := (course.accounted turn member).2.at_root placed
    rw [placed] at stamp
    rw [nearest, List.inits, List.reverse_singleton, List.findSome?_singleton, stamp, same]
    rfl
  | append_singleton place i ih =>
    obtain ⟨down, listed, ⟨-, _, _, _, _, _, _, inherited⟩, above⟩ :=
      (course.accounted turn member).2.from_above root placed
    have stamp := stampAt_eq course.ordered member
    rw [placed] at stamp
    rw [nearest_append, stamp, ← ih listed above, ← inherited]
    rfl

/-- How the topdown value and the scope are threaded through a run. -/
structure Threading (t : Traversal σ) (shape : Shape σ ρ) (first : Entry σ)
    (turns : List (Turn σ)) (ran : Except Fault ρ × Store σ) : Prop where
  course : t.Course shape first turns ran
  scope : ∀ turn ∈ turns, turn.ctx.scope = nearest turns first.inherited turn.place
  start : ∀ turn ∈ turns, turn.Begins → turn.place = [] → turn.ctx.topdown = first.topdown
  handed : ∀ turn ∈ turns, turn.Begins → ∀ place i, turn.place = place ++ [i] →
    ∃ down ∈ turns, down.slot = .topdown ∧ down.place = place ∧
      (t.ending down).1 = .ok turn.ctx.topdown
  kept : ∀ turn ∈ turns, ¬ turn.Begins → ∃ down ∈ turns, down.slot = .topdown ∧
    down.entry = turn.entry ∧ (t.ending down).1 = .ok turn.ctx.topdown

theorem Course.threading (course : t.Course shape first turns ran) (root : first.place = []) :
    t.Threading shape first turns ran where
  course := course
  scope turn member :=
    (course.accounted turn member).1.scope_eq.trans (course.scope_eq_nearest root member)
  start turn member begins placed := by
    obtain ⟨accounted, arrives⟩ := course.accounted turn member
    rw [accounted.topdown_eq begins, arrives.at_root placed]
  handed turn member begins place i placed := by
    obtain ⟨accounted, arrives⟩ := course.accounted turn member
    obtain ⟨down, listed, ⟨topdown, inner, gave, _, _, _, passed, _⟩, above⟩ :=
      arrives.from_above root placed
    refine ⟨down, listed, topdown, above, ?_⟩
    rw [accounted.topdown_eq begins, passed, gave]
  kept turn member later := (course.accounted turn member).1.kept_topdown later

/-- Where the way down into a node went well, its children were visited, and the chain of its shape
was run. -/
def Complete (t : Traversal σ) (turns : List (Turn σ)) : Prop :=
  ∀ down ∈ turns, down.slot = .topdown → ∀ inner, (t.ending down).1 = .ok inner →
    (∃ own ∈ turns, own.entry = down.entry ∧ own.slot ≠ .topdown) ∧
      ∀ i < (traversed down.entry.node).length, ∃ turn ∈ turns, turn.place = down.place ++ [i]

private theorem Complete.weaken {turns more : List (Turn σ)} (complete : t.Complete turns)
    (subset : turns ⊆ more) {down : Turn σ} (member : down ∈ turns) (topdown : down.slot = .topdown)
    {inner : Value} (gave : (t.ending down).1 = .ok inner) :
    (∃ own ∈ more, own.entry = down.entry ∧ own.slot ≠ .topdown) ∧
      ∀ i < (traversed down.entry.node).length, ∃ turn ∈ more, turn.place = down.place ++ [i] := by
  obtain ⟨⟨own, listed, rest⟩, children⟩ := complete down member topdown inner gave
  refine ⟨⟨own, subset listed, rest⟩, fun i less => ?_⟩
  obtain ⟨turn, there, placed⟩ := children i less
  exact ⟨turn, subset there, placed⟩

mutual

theorem Visited.complete {e : Entry σ} {turns : List (Turn σ)} {outcome : Except Fault ρ}
    {after : Store σ} (visited : t.Visited shape noLeaves e turns outcome after) :
    ∀ result, outcome = .ok result → t.Complete turns := by
  match visited with
  | .replaced there _ => cases there
  | .lost .. | .stopped .. | .broken .. =>
    intro result given
    cases given
  | .leaf .. =>
    intro result _ down member topdown
    obtain rfl := List.mem_singleton.mp member
    exact absurd topdown (ofKind_ne_topdown _)
  | .skipped _ _ _ down _ =>
    intro result _ turn member _ inner gave
    obtain rfl := List.mem_singleton.mp member
    cases (congrArg Prod.fst down).symm.trans gave
  | .done _ _ _ _ below _ _ =>
    obtain ⟨complete, children⟩ := below.complete _ rfl
    intro result _ turn member topdown inner gave
    rcases List.mem_cons.mp member with rfl | further
    · refine ⟨⟨_, List.mem_cons_of_mem _ (List.mem_append_right _ (List.mem_singleton_self _)), rfl,
        ofKind_ne_topdown _⟩, fun i less => ?_⟩
      obtain ⟨child, listed, placed⟩ := children i less
      rw [Nat.zero_add] at placed
      exact ⟨child, List.mem_cons_of_mem _ (List.mem_append_left _ listed), placed⟩
    · rcases List.mem_append.mp further with further | further
      · exact complete.weaken (subset_around _ _) further topdown gave
      · obtain rfl := List.mem_singleton.mp further
        exact absurd topdown (ofKind_ne_topdown _)
termination_by structural visited

theorem VisitedAll.complete {place : Position} {index : Nat} {topdown inherited : Value}
    {nodes : List Expr} {s after : Store σ} {turns : List (Turn σ)}
    {outcome : Except Fault (List ρ)}
    (visited : t.VisitedAll shape noLeaves place index topdown inherited nodes s turns outcome
      after) :
    ∀ results, outcome = .ok results → t.Complete turns ∧
      ∀ i < nodes.length, ∃ turn ∈ turns, turn.place = place ++ [index + i] := by
  match visited with
  | .nil => exact fun _ _ => ⟨fun _ member => (by cases member), fun _ less => (by cases less)⟩
  | .stop _ =>
    intro results given
    cases given
  | .cons first others =>
    have own := first.complete _ rfl
    have later := others.complete
    obtain ⟨child, listed, entered⟩ := first.exists_turn
    intro results given
    obtain ⟨tail, same, -⟩ := Action.exists_of_map_eq_ok given
    obtain ⟨complete, children⟩ := later tail same
    refine ⟨fun down member topdown inner gave => ?_, fun i less => ?_⟩
    · rcases List.mem_append.mp member with member | member
      · exact own.weaken (List.subset_append_left _ _) member topdown gave
      · exact complete.weaken (List.subset_append_right _ _) member topdown gave
    · cases i with
      | zero => exact ⟨child, List.mem_append_left _ listed, by rw [Turn.place, entered]; rfl⟩
      | succ i =>
        obtain ⟨turn, there, placed⟩ := children i (Nat.lt_of_succ_lt_succ less)
        exact ⟨turn, List.mem_append_right _ there, by
          rw [placed, Nat.add_assoc, Nat.add_comm 1 i]⟩
termination_by structural visited

end

end Traversal

end TreePass
