import TreePass.Proofs.Turns.Faults

/-!
Skips. The chain on the way down into a node may end by a skip of this visit. Then nothing is
visited below the node, the chain of its shape does not run, and the visit ends with the value of
the skip. All other turns are those of the run in which a leaf with this value stands there.
-/

set_option autoImplicit false
set_option relaxedAutoImplicit false

namespace TreePass

variable {σ ρ : Type}

def Store.noting (s : Store σ) (entry : Note) : Store σ := { s with notes := s.notes.push entry }

namespace Traversal

variable (t : Traversal σ) (shape : Shape σ ρ)

/-- A turn skips its own visit with a value, and leaves a store. -/
def Skips (turn : Turn σ) (value : Value) (s : Store σ) : Prop :=
  ∃ visit, turn.ctx.visit = some visit ∧ t.ending turn = (.error (.skip visit value), s)

/-- How a turn ends its visit. A chain on the way down that gives a value does not end it. -/
def verdict (turn : Turn σ) : Option (Except Fault ρ × Store σ) :=
  match t.ending turn with
  | (.ok value, s) =>
    if turn.slot = .topdown then none
    else some ((t.finish shape turn.slot turn.entry.node.kind (some turn.given) value).run s)
  | (.error fault, s) =>
    match turn.skip? fault with
    | some value => some ((t.endSkipped shape turn.entry.node value).run s)
    | none => some (.error fault, s)

/-- The leaf that stands at one place, and no other. -/
def leafAt (place : Position) (leaf : Action σ ρ) : Position → Option (Action σ ρ) :=
  fun other => if other = place then some leaf else none

variable {t shape}

private theorem Skips.skip?_eq {turn : Turn σ} {value : Value} {s : Store σ} {fault : Fault}
    (skips : t.Skips turn value s) (ended : t.ending turn = (.error fault, s)) :
    turn.skip? fault = some value := by
  obtain ⟨visit, given, skipped⟩ := skips
  obtain ⟨same, -⟩ := Prod.mk.inj (ended.symm.trans skipped)
  obtain rfl := Except.error.inj same
  simp [Turn.skip?, given]

theorem Skips.verdict_eq {turn : Turn σ} {value : Value} {s : Store σ}
    (skips : t.Skips turn value s) :
    t.verdict shape turn = some ((t.endSkipped shape turn.entry.node value).run s) := by
  obtain ⟨visit, given, ended⟩ := skips
  have own := Skips.skip?_eq ⟨visit, given, ended⟩ ended
  unfold verdict
  rw [ended]
  simp only [own]

private theorem Skips.fault?_eq {turn : Turn σ} {value : Value} {s : Store σ}
    (skips : t.Skips turn value s) :
    t.fault? shape turn = t.refusal? shape turn.slot turn.entry.node.kind none value := by
  obtain ⟨visit, given, ended⟩ := skips
  have own := Skips.skip?_eq ⟨visit, given, ended⟩ ended
  unfold fault?
  rw [ended]
  simp only [own]

theorem verdict_of_own {turn : Turn σ} (own : turn.slot ≠ .topdown)
    (noSkip : turn.ctx.visit = none) : t.verdict shape turn = some (t.conclude shape turn) := by
  unfold verdict conclude
  cases t.ending turn with
  | mk answer s =>
    cases answer with
    | ok value => simp only [own, ↓reduceIte]
    | error fault =>
      have foreign : turn.skip? fault = none := Turn.skip?_eq_none (by simp [noSkip])
      simp only [foreign]

theorem verdict_of_error {turn : Turn σ} {fault : Fault} {s : Store σ}
    (ended : t.ending turn = (.error fault, s)) (unskipped : turn.skip? fault = none) :
    t.verdict shape turn = some (.error fault, s) := by
  simp only [verdict, ended, unskipped]

private theorem verdict_of_handed {e : Entry σ} {target : Option Identity} {s s₁ : Store σ}
    {inner : Value} (down : t.ending (t.downTurn e target s) = (.ok inner, s₁)) :
    t.verdict shape (t.downTurn e target s) = none := by
  unfold verdict
  rw [down]
  rfl

mutual

theorem Visited.outcome_of_verdict {e : Entry σ} {turns : List (Turn σ)} {outcome : Except Fault ρ}
    {after : Store σ} (visited : t.Visited shape noLeaves e turns outcome after) :
    ∀ turn ∈ turns, ∀ ended, t.verdict shape turn = some ended →
      t.outcome shape turn.entry = ended := by
  have whole : t.outcome shape e = (outcome, after) := visited.run
  match visited with
  | .replaced there _ => cases there
  | .lost .. => simp
  | .leaf _ _ _ own =>
    intro turn member ended gives
    obtain rfl := List.mem_singleton.mp member
    rw [verdict_of_own (ofKind_ne_topdown _) rfl, own] at gives
    exact whole.trans (Option.some.inj gives)
  | .stopped _ _ _ down foreign =>
    intro turn member ended gives
    obtain rfl := List.mem_singleton.mp member
    rw [verdict_of_error down (downTurn_skip?_eq_none foreign)] at gives
    exact whole.trans (Option.some.inj gives)
  | .skipped _ _ _ down skipped =>
    intro turn member ended gives
    obtain rfl := List.mem_singleton.mp member
    rw [Skips.verdict_eq ⟨_, rfl, down⟩] at gives
    exact whole.trans (skipped.symm.trans (Option.some.inj gives))
  | .broken _ _ _ down below =>
    have inside := below.outcome_of_verdict
    intro turn member ended gives
    rcases List.mem_cons.mp member with rfl | member
    · rw [verdict_of_handed down] at gives
      cases gives
    · exact inside turn member ended gives
  | .done _ _ _ down below _ own =>
    have inside := below.outcome_of_verdict
    intro turn member ended gives
    rcases List.mem_cons.mp member with rfl | member
    · rw [verdict_of_handed down] at gives
      cases gives
    · rcases List.mem_append.mp member with member | member
      · exact inside turn member ended gives
      · obtain rfl := List.mem_singleton.mp member
        rw [verdict_of_own (ofKind_ne_topdown _) rfl, own] at gives
        exact whole.trans (Option.some.inj gives)
termination_by structural visited

theorem VisitedAll.outcome_of_verdict {place : Position} {index : Nat} {topdown inherited : Value}
    {nodes : List Expr} {s after : Store σ} {turns : List (Turn σ)}
    {outcome : Except Fault (List ρ)}
    (visited : t.VisitedAll shape noLeaves place index topdown inherited nodes s turns outcome
      after) :
    ∀ turn ∈ turns, ∀ ended, t.verdict shape turn = some ended →
      t.outcome shape turn.entry = ended := by
  match visited with
  | .nil => simp
  | .stop first => exact first.outcome_of_verdict
  | .cons first others =>
    have early := first.outcome_of_verdict
    have late := others.outcome_of_verdict
    intro turn member
    rcases List.mem_append.mp member with member | member
    · exact early turn member
    · exact late turn member
termination_by structural visited

end

variable {leaves : Position → Option (Action σ ρ)}

mutual

theorem Visited.apart {e : Entry σ} {turns : List (Turn σ)} {outcome : Except Fault ρ}
    {after : Store σ} (visited : t.Visited shape noLeaves e turns outcome after)
    (bare : ∀ place, e.place <+: place → leaves place = none) :
    t.Visited shape leaves e turns outcome after := by
  have kept := bare e.place (List.prefix_refl _)
  have children (i : Nat) (place : Position) (further : e.place ++ [i] <+: place) :
      leaves place = none := bare place ((List.prefix_append _ _).trans further)
  match visited with
  | .replaced there _ => cases there
  | .leaf _ simple readied own => exact .leaf kept simple readied own
  | .lost _ composite search => exact .lost kept composite search
  | .stopped _ composite search down foreign => exact .stopped kept composite search down foreign
  | .skipped _ composite search down ended => exact .skipped kept composite search down ended
  | .broken _ composite search down below =>
    have inside := below.apart fun i _ => children i
    exact .broken kept composite search down inside
  | .done _ composite search down below readied own =>
    have inside := below.apart fun i _ => children i
    exact .done kept composite search down inside readied own
termination_by structural visited

theorem VisitedAll.apart {place : Position} {index : Nat} {topdown inherited : Value}
    {nodes : List Expr} {s after : Store σ} {turns : List (Turn σ)}
    {outcome : Except Fault (List ρ)}
    (visited : t.VisitedAll shape noLeaves place index topdown inherited nodes s turns outcome
      after)
    (bare : ∀ i, index ≤ i → ∀ other, place ++ [i] <+: other → leaves other = none) :
    t.VisitedAll shape leaves place index topdown inherited nodes s turns outcome after := by
  match visited with
  | .nil => exact .nil
  | .stop first =>
    have own := first.apart (bare index (Nat.le_refl _))
    exact .stop own
  | .cons first others =>
    have own := first.apart (bare index (Nat.le_refl _))
    have rest := others.apart fun i beyond => bare i (Nat.le_of_succ_le beyond)
    exact .cons own rest
termination_by structural visited

end

/-- The visit of a turn is pruned: no other turn is at or below its place, and all others are those
of the run in which a leaf stands there that ends as the skip does. -/
def Pruned (t : Traversal σ) (shape : Shape σ ρ) (turn : Turn σ) (value : Value) (s : Store σ)
    (turns : List (Turn σ))
    (withLeaves : (Position → Option (Action σ ρ)) → List (Turn σ) → Prop) : Prop :=
  ∃ before later, turns = before ++ turn :: later ∧
    (∀ other ∈ before ++ later, ¬ turn.place <+: other.place) ∧
    ∀ leaf : Action σ ρ,
      leaf.run turn.entry.start = (t.endSkipped shape turn.entry.node value).run s →
        withLeaves (leafAt turn.place leaf) (before ++ later)

private theorem leafAt_of_ne {place other : Position} {leaf : Action σ ρ}
    (different : other ≠ place) : leafAt place leaf other = none := by
  simp [leafAt, different]

private theorem leafAt_above {place below : Position} {i : Nat} (further : place ++ [i] <+: below)
    (leaf : Action σ ρ) : leafAt below leaf place = none :=
  leafAt_of_ne fun same => child_not_above place i (same ▸ further)

section

variable {turn : Turn σ} {value : Value} {s : Store σ} {turns : List (Turn σ)}
  {inner outer : (Position → Option (Action σ ρ)) → List (Turn σ) → Prop}

private theorem Pruned.surround (pruned : t.Pruned shape turn value s turns inner)
    (front back : List (Turn σ)) (outside : ∀ other ∈ front ++ back, ¬ turn.place <+: other.place)
    (wrap : ∀ leaf inside, inner (leafAt turn.place leaf) inside →
      outer (leafAt turn.place leaf) (front ++ inside ++ back)) :
    t.Pruned shape turn value s (front ++ turns ++ back) outer := by
  obtain ⟨before, later, rfl, apart, replaced⟩ := pruned
  refine ⟨front ++ before, later ++ back, by simp, fun other member => ?_, fun leaf given => ?_⟩
  · have either : other ∈ before ++ later ∨ other ∈ front ++ back := by
      simp only [List.mem_append] at member ⊢
      tauto
    exact either.elim (apart other) (outside other)
  · have around := wrap leaf _ (replaced leaf given)
    simpa only [List.append_assoc] using around

theorem Pruned.below {first : Turn σ} (pruned : t.Pruned shape turn value s turns inner)
    (apart : ¬ turn.place <+: first.place)
    (wrap : ∀ leaf inside, inner (leafAt turn.place leaf) inside →
      outer (leafAt turn.place leaf) (first :: inside)) :
    t.Pruned shape turn value s (first :: turns) outer := by
  have around := pruned.surround [first] [] (by simpa using apart) fun leaf inside given =>
    List.append_nil (first :: inside) ▸ wrap leaf inside given
  simpa using around

theorem Pruned.between {first last : Turn σ} (pruned : t.Pruned shape turn value s turns inner)
    (apart : ¬ turn.place <+: first.place) (apart' : ¬ turn.place <+: last.place)
    (wrap : ∀ leaf inside, inner (leafAt turn.place leaf) inside →
      outer (leafAt turn.place leaf) (first :: (inside ++ [last]))) :
    t.Pruned shape turn value s (first :: (turns ++ [last])) outer :=
  pruned.surround [first] [last] (by simpa using ⟨apart, apart'⟩) wrap

theorem Pruned.followed {later : List (Turn σ)} (pruned : t.Pruned shape turn value s turns inner)
    (apart : ∀ other ∈ later, ¬ turn.place <+: other.place)
    (wrap : ∀ leaf inside, inner (leafAt turn.place leaf) inside →
      outer (leafAt turn.place leaf) (inside ++ later)) :
    t.Pruned shape turn value s (turns ++ later) outer :=
  pruned.surround [] later apart wrap

private theorem Pruned.preceded {earlier : List (Turn σ)}
    (pruned : t.Pruned shape turn value s turns inner)
    (apart : ∀ other ∈ earlier, ¬ turn.place <+: other.place)
    (wrap : ∀ leaf inside, inner (leafAt turn.place leaf) inside →
      outer (leafAt turn.place leaf) (earlier ++ inside)) :
    t.Pruned shape turn value s (earlier ++ turns) outer := by
  have around := pruned.surround earlier [] (by simpa using apart) fun leaf inside given =>
    List.append_nil (earlier ++ inside) ▸ wrap leaf inside given
  simpa using around

end

mutual

theorem Visited.pruned {e : Entry σ} {turns : List (Turn σ)} {outcome : Except Fault ρ}
    {after : Store σ} (visited : t.Visited shape noLeaves e turns outcome after) :
    ∀ turn ∈ turns, ∀ value s, t.Skips turn value s →
      t.Pruned shape turn value s turns
        (t.Visited shape · e · outcome after) := by
  match visited with
  | .replaced there _ => cases there
  | .lost .. => simp
  | .leaf .. =>
    rintro turn member value s ⟨visit, given, -⟩
    obtain rfl := List.mem_singleton.mp member
    cases given
  | .stopped _ _ _ down foreign =>
    rintro turn member value s ⟨visit, given, ended⟩
    obtain rfl := List.mem_singleton.mp member
    obtain rfl := Option.some.inj given
    obtain ⟨same, -⟩ := Prod.mk.inj (down.symm.trans ended)
    exact absurd (Except.error.inj same) (foreign value)
  | .skipped _ _ _ down skipped =>
    rintro turn member value s ⟨visit, given, ended⟩
    obtain rfl := List.mem_singleton.mp member
    obtain rfl := Option.some.inj given
    obtain ⟨same, rfl⟩ := Prod.mk.inj (down.symm.trans ended)
    obtain ⟨-, rfl⟩ := Fault.skip.inj (Except.error.inj same)
    refine ⟨[], [], rfl, by simp, fun leaf ran => ?_⟩
    exact .replaced (by simp [leafAt, Turn.place, downTurn]) (ran.trans skipped)
  | .broken _ composite search down below =>
    -- The leaf stands strictly below this node, so nothing changes at the node itself.
    have inside := below.pruned
    have places := below.within
    rintro turn member value s skips
    rcases List.mem_cons.mp member with rfl | member
    · obtain ⟨_, _, ended⟩ := skips
      cases down.symm.trans ended
    · obtain ⟨i, -, further⟩ := places turn member
      have above : ¬ turn.place <+: e.place := fun back =>
        child_not_above e.place i (further.trans back)
      exact (inside turn member value s skips).below above fun leaf _ replaced =>
        .broken (leafAt_above further leaf) composite search down replaced
  | .done _ composite search down below readied own =>
    have inside := below.pruned
    have places := below.within
    rintro turn member value s skips
    rcases List.mem_cons.mp member with rfl | member
    · obtain ⟨_, _, ended⟩ := skips
      cases down.symm.trans ended
    · rcases List.mem_append.mp member with member | member
      · obtain ⟨i, -, further⟩ := places turn member
        have above : ¬ turn.place <+: e.place := fun back =>
          child_not_above e.place i (further.trans back)
        exact (inside turn member value s skips).between above above fun leaf _ replaced =>
          .done (leafAt_above further leaf) composite search down replaced readied own
      · obtain rfl := List.mem_singleton.mp member
        obtain ⟨_, given, -⟩ := skips
        cases given
termination_by structural visited

theorem VisitedAll.pruned {place : Position} {index : Nat} {topdown inherited : Value}
    {nodes : List Expr} {s after : Store σ} {turns : List (Turn σ)}
    {outcome : Except Fault (List ρ)}
    (visited : t.VisitedAll shape noLeaves place index topdown inherited nodes s turns outcome
      after) :
    ∀ turn ∈ turns, ∀ value s', t.Skips turn value s' →
      t.Pruned shape turn value s' turns
        (t.VisitedAll shape · place index topdown inherited nodes s · outcome after) := by
  match visited with
  | .nil => simp
  | .stop first =>
    have own := first.pruned
    intro turn member value s' skips
    obtain ⟨before, later, split, apart, replaced⟩ := own turn member value s' skips
    exact ⟨before, later, split, apart, fun leaf ran => .stop (replaced leaf ran)⟩
  | .cons first others =>
    have own := first.pruned
    have inside := others.pruned
    have firstPlaces := first.within
    have places := others.within
    intro turn member value s' skips
    rcases List.mem_append.mp member with member | member
    · have here := firstPlaces turn member
      refine (own turn member value s' skips).followed (fun other listed back => ?_)
        fun leaf _ replaced => .cons replaced (others.apart fun i beyond other further =>
          leafAt_of_ne fun same => ?_)
      · obtain ⟨i, beyond, further⟩ := places other listed
        have equal := child_unique (here.trans back) further
        omega
      · rw [same] at further
        have equal := child_unique here further
        omega
    · obtain ⟨i, beyond, here⟩ := places turn member
      refine (inside turn member value s' skips).preceded (fun other listed back => ?_)
        fun leaf _ replaced => .cons (first.apart fun other further =>
          leafAt_of_ne fun same => ?_) replaced
      · have equal := child_unique (firstPlaces other listed) (here.trans back)
        omega
      · rw [same] at further
        have equal := child_unique further here
        omega
termination_by structural visited

end

theorem Skips.down {turns : List (Turn σ)} {turn : Turn σ} {value : Value} {s : Store σ}
    (skips : t.Skips turn value s) (accounted : t.Accounted shape turns turn) :
    turn.slot = .topdown ∧ turn.entry.node.kind.isComposite = true := by
  obtain ⟨visit, given, -⟩ := skips
  have down : turn.slot = .topdown := accounted.visit_isSome_iff.mp (by rw [given]; rfl)
  exact ⟨down, accounted.composite_of_down down⟩

/-- What the skips in a run do. The values that the shape of the mode takes end their visits as the
results of other visits do; any other value ends the run. -/
structure Pruning (t : Traversal σ) (shape : Shape σ ρ) (first : Entry σ) (turns : List (Turn σ))
    (ran : Except Fault ρ × Store σ) : Prop where
  course : t.Course shape first turns ran
  composite : ∀ turn ∈ turns, ∀ value s, t.Skips turn value s →
    turn.slot = .topdown ∧ turn.entry.node.kind.isComposite = true
  pruned : ∀ turn ∈ turns, ∀ value s, t.Skips turn value s →
    t.Pruned shape turn value s turns (t.Visited shape · first · ran.1 ran.2)
  taken : ∀ turn ∈ turns, ∀ value s, t.Skips turn value s →
    ∀ result, shape.accept none value = some result →
      t.outcome shape turn.entry = result.run (s.noting (.skipped turn.entry.node.kind))
  refused : ∀ turn ∈ turns, ∀ value s, t.Skips turn value s → shape.accept none value = none →
    ran.1 = .error (.handlerResult .topdown turn.entry.node.kind t.mode value.typeName) ∧
      ∃ earlier, turns = earlier ++ [turn]
  raised : ∀ turn ∈ turns, t.Candid turn → ∀ visit value s, turn.ctx.visit = some visit →
    t.Raised turn (.skip visit value) s → t.Skips turn value s

private theorem pruning_of_course (sound : shape.Sound) {first : Entry σ} {turns : List (Turn σ)}
    {ran : Except Fault ρ × Store σ} (course : t.Course shape first turns ran) :
    t.Pruning shape first turns ran where
  course := course
  composite turn member value s skips := skips.down (course.accounted turn member).1
  pruned := course.visited.pruned
  taken turn member value s skips result accepted := by
    have ended := course.visited.outcome_of_verdict turn member _ skips.verdict_eq
    rw [ended, endSkipped, Action.run_bind_of_ok (Action.run_note _ s), finish, accepted]
    rfl
  refused turn member value s skips unaccepted := by
    have down := (skips.down (course.accounted turn member).1).1
    have own : t.fault? shape turn =
        some (.handlerResult .topdown turn.entry.node.kind t.mode value.typeName) := by
      rw [skips.fault?_eq, refusal?, unaccepted, down]
      rfl
    exact (course.visited.endsBy sound).of_fault member own
  raised turn _ candid visit value s given raised :=
    ⟨visit, given, (ending_eq_error_iff candid).mpr raised⟩

/-- A skip prunes one visit. In an analysis the visit ends with the map that the skip gives, in a
transformation with a copy of the node. -/
theorem skip_prunes_one_visit (t : Traversal σ) (topdown : Value) (scope : Option Scope)
    (expr : Expr) (s : Store σ) :
    (∃ turns, t.Pruning .analysis (rootEntry topdown scope expr s) turns
        ((t.analyse topdown (scope.getD Scope.empty) expr).run s) ∧
      ∀ turn ∈ turns, ∀ entries s', t.Skips turn (.map entries) s' →
        t.outcome .analysis turn.entry =
          (.ok entries, s'.noting (.skipped turn.entry.node.kind))) ∧
    ∃ turns, t.Pruning .transforming (rootEntry topdown scope expr s) turns
        ((t.transform topdown (scope.getD Scope.empty) expr).run s) ∧
      ∀ turn ∈ turns, ∀ node s', t.Skips turn (.node node) s' →
        t.outcome .transforming turn.entry =
          node.clone.run (s'.noting (.skipped turn.entry.node.kind)) := by
  constructor
  · obtain ⟨turns, course⟩ := t.exists_course Shape.analysis_sound (rootEntry topdown scope expr s)
    have pruning := pruning_of_course Shape.analysis_sound course
    refine ⟨turns, pruning, fun turn member entries s' skips => ?_⟩
    exact pruning.taken turn member _ s' skips (pure entries) rfl
  · obtain ⟨turns, course⟩ :=
      t.exists_course Shape.transforming_sound (rootEntry topdown scope expr s)
    have pruning := pruning_of_course Shape.transforming_sound course
    refine ⟨turns, pruning, fun turn member node s' skips => ?_⟩
    exact pruning.taken turn member _ s' skips node.clone rfl

end Traversal

end TreePass
