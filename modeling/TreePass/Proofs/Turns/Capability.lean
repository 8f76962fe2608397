import TreePass.Proofs.Turns.Skipping

/-!
The right to skip. Each way down is given the right to skip its own visit, under a number that no
other visit has. A skip under this number ends that visit if it leaves that chain. If it leaves any
other chain, before or after or in a traversal that a handler started, it ends the whole run.
-/

set_option autoImplicit false
set_option relaxedAutoImplicit false

namespace TreePass

variable {σ ρ : Type}

namespace Traversal

variable {t : Traversal σ} {shape : Shape σ ρ}

private theorem ending_grows (turn : Turn σ) : Store.Grows turn.before (t.ending turn).2 :=
  (invoke turn.ctx (t.config.fullChain turn.slot turn.target) turn.given).grows turn.before

private theorem Linked.numbers {s after : Store σ} {turns : List (Turn σ)}
    (linked : t.Linked s turns after) : s.visits ≤ after.visits ∧ ∀ turn ∈ turns,
      s.visits ≤ turn.before.visits ∧ (t.ending turn).2.visits ≤ after.visits ∧
        ∀ visit, turn.ctx.visit = some visit → s.visits ≤ visit ∧ visit < after.visits := by
  induction turns generalizing s with
  | nil => exact ⟨linked.visits, by simp⟩
  | cons turn rest ih =>
    obtain ⟨⟨quiet, fresh⟩, others⟩ := linked
    obtain ⟨onward, inside⟩ := ih others
    have start := quiet.visits
    have grown := (ending_grows (t := t) turn).visits
    refine ⟨by omega, fun other member => ?_⟩
    rcases List.mem_cons.mp member with rfl | member
    · refine ⟨start, onward, fun visit given => ?_⟩
      have bounds := fresh visit given
      omega
    · obtain ⟨low, high, numbers⟩ := inside other member
      refine ⟨by omega, high, fun visit given => ?_⟩
      have bounds := numbers visit given
      omega

private theorem Linked.increasing {s after : Store σ} {turns : List (Turn σ)}
    (linked : t.Linked s turns after) :
    turns.Pairwise fun a b => ∀ i j, a.ctx.visit = some i → b.ctx.visit = some j → i < j := by
  induction turns generalizing s with
  | nil => exact .nil
  | cons turn rest ih =>
    obtain ⟨⟨-, fresh⟩, others⟩ := linked
    refine .cons (fun other member i j given later => ?_) (ih others)
    have grown := (ending_grows (t := t) turn).visits
    have own := fresh i given
    have bounds := (others.numbers.2 other member).2.2 j later
    omega

theorem Linked.around {s after : Store σ} {turns : List (Turn σ)} (linked : t.Linked s turns after)
    {turn other : Turn σ} (member : turn ∈ turns) (listed : other ∈ turns) {visit : Nat}
    (given : other.ctx.visit = some visit) :
    visit < turn.before.visits ∨ (t.ending turn).2.visits ≤ visit := by
  induction turns generalizing s with
  | nil => cases member
  | cons first rest ih =>
    obtain ⟨⟨-, fresh⟩, others⟩ := linked
    have inside := others.numbers.2
    -- A turn is given its number before it begins, and a later turn after this one has ended.
    rcases List.mem_cons.mp member with rfl | further
    · rcases List.mem_cons.mp listed with rfl | later
      · exact Or.inl (fresh visit given).2
      · exact Or.inr ((inside other later).2.2 visit given).1
    · rcases List.mem_cons.mp listed with rfl | later
      · have own := (fresh visit given).2
        have grown := (ending_grows (t := t) other).visits
        have start := (inside turn further).1
        exact Or.inl (by omega)
      · exact ih others further later

mutual

theorem Visited.enclosing (sound : shape.Sound) {e : Entry σ} {turns : List (Turn σ)}
    {outcome : Except Fault ρ} {after : Store σ}
    (visited : t.Visited shape noLeaves e turns outcome after) :
    ∀ turn ∈ turns, ∀ fault, t.fault? shape turn = some fault → outcome = .error fault ∧
      ∀ other ∈ turns, other.place <+: turn.place →
        t.outcome shape other.entry = (.error fault, after) := by
  have whole : t.outcome shape e = (outcome, after) := visited.run
  have ends := visited.endsBy sound
  match visited with
  | .replaced there _ => cases there
  | .lost .. => simp
  | .leaf .. | .stopped .. | .skipped .. =>
    intro turn member fault own
    obtain ⟨same, -⟩ := ends.of_fault member own
    refine ⟨same, fun other listed _ => ?_⟩
    obtain rfl := List.mem_singleton.mp listed
    rw [same] at whole
    exact whole
  | .broken _ _ _ down below =>
    have inside := below.enclosing sound
    intro turn member fault own
    obtain ⟨same, -⟩ := ends.of_fault member own
    refine ⟨same, fun other listed around => ?_⟩
    rcases List.mem_cons.mp listed with rfl | listed
    · rw [same] at whole
      exact whole
    · rcases List.mem_cons.mp member with rfl | member
      · cases (fault?_of_handed down).symm.trans own
      · exact (inside turn member fault own).2 other listed around
  | .done _ _ _ down below _ concluded =>
    have places := below.within
    intro turn member fault own
    -- A visit that got as far as its own turn can only be at fault there.
    obtain ⟨rfl, earlier, split⟩ := ends.of_fault member own
    rw [← List.cons_append] at split
    obtain ⟨-, last⟩ := List.append_inj' split rfl
    obtain rfl := List.cons.inj last |>.1
    refine ⟨rfl, fun other listed around => ?_⟩
    rcases List.mem_cons.mp listed with rfl | listed
    · exact whole
    · rcases List.mem_append.mp listed with listed | listed
      · obtain ⟨i, -, further⟩ := places other listed
        exact absurd (further.trans around) (child_not_above e.place i)
      · obtain rfl := List.mem_singleton.mp listed
        exact whole
termination_by structural visited

theorem VisitedAll.enclosing (sound : shape.Sound) {place : Position} {index : Nat}
    {topdown inherited : Value} {nodes : List Expr} {s after : Store σ} {turns : List (Turn σ)}
    {outcome : Except Fault (List ρ)}
    (visited : t.VisitedAll shape noLeaves place index topdown inherited nodes s turns outcome
      after) :
    ∀ turn ∈ turns, ∀ fault, t.fault? shape turn = some fault → outcome = .error fault ∧
      ∀ other ∈ turns, other.place <+: turn.place →
        t.outcome shape other.entry = (.error fault, after) := by
  match visited with
  | .nil => simp
  | .stop first =>
    have inside := first.enclosing sound
    intro turn member fault own
    obtain ⟨same, others⟩ := inside turn member fault own
    exact ⟨congrArg _ (Except.error.inj same), others⟩
  | .cons first others =>
    have clean := (first.endsBy sound).clean_of_ok
    have inside := others.enclosing sound
    have firstPlaces := first.within
    have places := others.within
    intro turn member fault own
    rcases List.mem_append.mp member with member | member
    · cases (clean turn member).symm.trans own
    · obtain ⟨rfl, rest⟩ := inside turn member fault own
      refine ⟨rfl, fun other listed around => ?_⟩
      rcases List.mem_append.mp listed with listed | listed
      · obtain ⟨i, beyond, further⟩ := places turn member
        have equal := child_unique ((firstPlaces other listed).trans around) further
        omega
      · exact rest other listed around
termination_by structural visited

end

mutual

theorem Visited.verdict_of_outcome {e : Entry σ} {turns : List (Turn σ)} {outcome : Except Fault ρ}
    {after : Store σ} (visited : t.Visited shape noLeaves e turns outcome after) :
    ∀ turn ∈ turns, ∀ result, (t.outcome shape turn.entry).1 = .ok result →
      ∃ last ∈ turns, last.entry = turn.entry ∧
        t.verdict shape last = some (t.outcome shape turn.entry) := by
  have whole : t.outcome shape e = (outcome, after) := visited.run
  match visited with
  | .replaced there _ => cases there
  | .lost .. => simp
  | .leaf _ _ _ own =>
    intro turn member result _
    obtain rfl := List.mem_singleton.mp member
    refine ⟨_, member, rfl, (verdict_of_own (ofKind_ne_topdown _) rfl).trans ?_⟩
    exact congrArg some (own.trans whole.symm)
  | .stopped .. =>
    intro turn member result gives
    obtain rfl := List.mem_singleton.mp member
    cases (congrArg Prod.fst whole).symm.trans gives
  | .skipped _ _ _ down ended =>
    intro turn member result _
    obtain rfl := List.mem_singleton.mp member
    refine ⟨_, member, rfl, (Skips.verdict_eq ⟨_, rfl, down⟩).trans ?_⟩
    exact congrArg some (ended.trans whole.symm)
  | .broken _ _ _ _ below =>
    have inside := below.verdict_of_outcome
    intro turn member result gives
    rcases List.mem_cons.mp member with rfl | further
    · cases (congrArg Prod.fst whole).symm.trans gives
    · obtain ⟨last, listed, rest⟩ := inside turn further result gives
      exact ⟨last, List.mem_cons_of_mem _ listed, rest⟩
  | .done _ _ _ _ below _ own =>
    have inside := below.verdict_of_outcome
    have concluded := (verdict_of_own (ofKind_ne_topdown _) rfl).trans
      (congrArg some (own.trans whole.symm))
    intro turn member result gives
    rcases List.mem_cons.mp member with rfl | further
    · exact ⟨_, List.mem_cons_of_mem _ (List.mem_append_right _ (List.mem_singleton_self _)), rfl,
        concluded⟩
    · rcases List.mem_append.mp further with further | further
      · obtain ⟨last, listed, rest⟩ := inside turn further result gives
        exact ⟨last, List.mem_cons_of_mem _ (List.mem_append_left _ listed), rest⟩
      · obtain rfl := List.mem_singleton.mp further
        exact ⟨_, member, rfl, concluded⟩
termination_by structural visited

theorem VisitedAll.verdict_of_outcome {place : Position} {index : Nat} {topdown inherited : Value}
    {nodes : List Expr} {s after : Store σ} {turns : List (Turn σ)}
    {outcome : Except Fault (List ρ)}
    (visited : t.VisitedAll shape noLeaves place index topdown inherited nodes s turns outcome
      after) :
    ∀ turn ∈ turns, ∀ result, (t.outcome shape turn.entry).1 = .ok result →
      ∃ last ∈ turns, last.entry = turn.entry ∧
        t.verdict shape last = some (t.outcome shape turn.entry) := by
  match visited with
  | .nil => simp
  | .stop first => exact first.verdict_of_outcome
  | .cons first others =>
    have early := first.verdict_of_outcome
    have late := others.verdict_of_outcome
    intro turn member result gives
    rcases List.mem_append.mp member with member | member
    · obtain ⟨last, listed, rest⟩ := early turn member result gives
      exact ⟨last, List.mem_append_left _ listed, rest⟩
    · obtain ⟨last, listed, rest⟩ := late turn member result gives
      exact ⟨last, List.mem_append_right _ listed, rest⟩
termination_by structural visited

end

private theorem run_descend_eq_skipped_iff {e : Entry σ} {target : Option Identity} {s s' : Store σ}
    {value : Value} :
    (t.descend target e.topdown e.scope e.node).run s = (.ok (.skipped value), s') ↔
      t.Skips (t.downTurn e target s) value s' := by
  constructor
  · intro ran
    cases down : t.ending (t.downTurn e target s) with
    | mk answer s₁ =>
      cases answer with
      | ok inner => cases (run_descend_of_ok down).symm.trans ran
      | error fault =>
        by_cases own : ∃ value, fault = .skip s.visits value
        · obtain ⟨other, rfl⟩ := own
          cases (run_descend_of_skip down).symm.trans ran
          exact ⟨_, rfl, down⟩
        · have foreign (value : Value) : fault ≠ .skip s.visits value :=
            fun same => own ⟨value, same⟩
          cases (run_descend_of_fault down foreign).symm.trans ran
  · rintro ⟨visit, given, ended⟩
    obtain rfl := Option.some.inj given
    exact run_descend_of_skip ended

private theorem fault?_of_foreign (shape : Shape σ ρ) {turn : Turn σ} {visit : Nat} {value : Value}
    {s : Store σ} (foreign : turn.ctx.visit ≠ some visit)
    (ended : t.ending turn = (.error (.skip visit value), s)) :
    t.fault? shape turn = some (.skip visit value) ∧
      t.verdict shape turn = some (.error (.skip visit value), s) := by
  have unskipped : turn.skip? (.skip visit value) = none := by
    refine Turn.skip?_eq_none fun other _ skips => ?_
    obtain ⟨rfl, -⟩ := Fault.skip.inj skips
    exact foreign
  exact ⟨fault?_of_error ended unskipped, verdict_of_error ended unskipped⟩

/-- What becomes of the rights to skip that a run gives. -/
structure SkipRights (t : Traversal σ) (shape : Shape σ ρ) (first : Entry σ)
    (turns : List (Turn σ)) (ran : Except Fault ρ × Store σ) : Prop where
  course : t.Course shape first turns ran
  given : ∀ turn ∈ turns, turn.ctx.visit.isSome ↔ turn.slot = .topdown
  distinct : turns.Pairwise fun a b => ∀ i j, a.ctx.visit = some i → b.ctx.visit = some j → i < j
  numbers : ∀ turn ∈ turns, ∀ visit, turn.ctx.visit = some visit →
    first.start.visits ≤ visit ∧ visit < ran.2.visits
  /-- A run that a handler starts gives other rights. -/
  nested : ∀ turn ∈ turns, ∀ (ρ' : Type) (t' : Traversal σ) (shape' : Shape σ ρ') first' turns'
    ran', t'.Course shape' first' turns' ran' → turn.before.visits ≤ first'.start.visits →
      ran'.2.visits ≤ (t.ending turn).2.visits → ∀ other ∈ turns, ∀ inner ∈ turns', ∀ visit,
        other.ctx.visit = some visit → inner.ctx.visit ≠ some visit
  /-- A way down takes up the skips that leave its own chain, and no others. -/
  taken : ∀ e target s, t.downTurn e target s ∈ turns → ∀ value s',
    (t.descend target e.topdown e.scope e.node).run s = (.ok (.skipped value), s') ↔
      t.Skips (t.downTurn e target s) value s'
  own : ∀ turn ∈ turns, ∀ value s, t.Skips turn value s →
    t.outcome shape turn.entry = (t.endSkipped shape turn.entry.node value).run s
  only : ∀ turn ∈ turns, ∀ result, (t.outcome shape turn.entry).1 = .ok result →
    ∃ last ∈ turns, last.entry = turn.entry ∧
      t.verdict shape last = some (t.outcome shape turn.entry)
  /-- Any other skip ends the run, and all visits that it is in, as it was raised. -/
  foreign : ∀ turn ∈ turns, ∀ visit value s, turn.ctx.visit ≠ some visit →
    t.ending turn = (.error (.skip visit value), s) →
      ran = (.error (.skip visit value), s) ∧ (∃ earlier, turns = earlier ++ [turn]) ∧
        ∀ other ∈ turns, other.place <+: turn.place → t.outcome shape other.entry = ran
  raised : ∀ turn ∈ turns, t.Candid turn → ∀ visit value s,
    t.ending turn = (.error (.skip visit value), s) ↔ t.Raised turn (.skip visit value) s

private theorem skipRights_of_course (sound : shape.Sound) {first : Entry σ} {turns : List (Turn σ)}
    {ran : Except Fault ρ × Store σ} (course : t.Course shape first turns ran) :
    t.SkipRights shape first turns ran where
  course := course
  given turn member := (course.accounted turn member).1.visit_isSome_iff
  distinct := course.linked.increasing
  numbers turn member := (course.linked.numbers.2 turn member).2.2
  nested turn member _ t' shape' first' turns' ran' inside low high other listed inner there visit
      has same := by
    have bounds := (inside.linked.numbers.2 inner there).2.2 visit same
    have either := course.linked.around member listed has
    omega
  taken _ _ _ _ _ _ := run_descend_eq_skipped_iff
  own turn member value s skips :=
    course.visited.outcome_of_verdict turn member _ skips.verdict_eq
  only := course.visited.verdict_of_outcome
  foreign turn member visit value s different ended := by
    obtain ⟨own, verdict⟩ := fault?_of_foreign shape different ended
    have itself := course.visited.outcome_of_verdict turn member _ verdict
    obtain ⟨-, around⟩ := course.visited.enclosing sound turn member _ own
    obtain ⟨failed, last⟩ := (course.visited.endsBy sound).of_fault member own
    have ends : t.outcome shape turn.entry = (.error (.skip visit value), ran.2) :=
      around turn member (List.prefix_refl _)
    have whole : ran = (.error (.skip visit value), ran.2) := Prod.ext failed rfl
    refine ⟨whole.trans (ends.symm.trans itself), last, fun other listed above => ?_⟩
    exact (around other listed above).trans whole.symm
  raised _ _ candid _ _ _ := ending_eq_error_iff candid

/-- A right to skip holds for one visit, while the chain on the way down into it is run. -/
theorem skip_rights_hold_for_one_visit (t : Traversal σ) (topdown : Value) (scope : Option Scope)
    (expr : Expr) (s : Store σ) :
    (∃ turns, t.SkipRights .analysis (rootEntry topdown scope expr s) turns
      ((t.analyse topdown (scope.getD Scope.empty) expr).run s)) ∧
    ∃ turns, t.SkipRights .transforming (rootEntry topdown scope expr s) turns
      ((t.transform topdown (scope.getD Scope.empty) expr).run s) := by
  constructor
  · obtain ⟨turns, course⟩ := t.exists_course Shape.analysis_sound (rootEntry topdown scope expr s)
    exact ⟨turns, skipRights_of_course Shape.analysis_sound course⟩
  · obtain ⟨turns, course⟩ :=
      t.exists_course Shape.transforming_sound (rootEntry topdown scope expr s)
    exact ⟨turns, skipRights_of_course Shape.transforming_sound course⟩

end Traversal

end TreePass
