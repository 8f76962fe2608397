import TreePass.Proofs.Turns.Handing
import TreePass.Proofs.Turns.Routines

/-!
Faults. A turn is at fault when its chain fails, a skip of its own visit apart, or when it gives a
result or a skip value of the wrong shape. A run ends with a result if none of its turns is at
fault; otherwise it ends with the fault of the first such turn, which is its last turn. The search
for a target is the only other place at which a run can end.
-/

set_option autoImplicit false
set_option relaxedAutoImplicit false

namespace TreePass

variable {σ ρ α β : Type}

/-- The value with which a fault skips the visit of a turn, if it does. -/
def Turn.skip? (turn : Turn σ) : Fault → Option Value
  | .skip visit value => if turn.ctx.visit = some visit then some value else none
  | _ => none

theorem Turn.skip?_eq_none {turn : Turn σ} {fault : Fault}
    (foreign : ∀ visit value, fault = .skip visit value → turn.ctx.visit ≠ some visit) :
    turn.skip? fault = none := by
  cases fault with
  | skip visit value => exact if_neg (foreign visit value rfl)
  | _ => rfl

namespace Traversal

variable (t : Traversal σ) (shape : Shape σ ρ)

def refusal? (slot : Slot) (kind : Kind) (made : Option Expr) (value : Value) : Option Fault :=
  if (shape.accept made value).isSome then none
  else some (.handlerResult slot kind t.mode value.typeName)

/-- The fault of a turn. Any value may be handed down; the result of a node's own shape, and the
value of a skip, must have the shape of the mode. -/
def fault? (turn : Turn σ) : Option Fault :=
  match (t.ending turn).1 with
  | .ok value =>
    if turn.slot = .topdown then none
    else t.refusal? shape turn.slot turn.entry.node.kind (some turn.given) value
  | .error fault =>
    match turn.skip? fault with
    | some value => t.refusal? shape turn.slot turn.entry.node.kind none value
    | none => some fault

/-- No turn is at fault. -/
def Clean (turns : List (Turn σ)) : Prop := ∀ turn ∈ turns, t.fault? shape turn = none

/-- How the turns of a run lead to its end, over the entries that the run comes to. -/
inductive EndsBy (arrives : Entry σ → Prop) (turns : List (Turn σ)) :
    Except Fault α → Store σ → Prop
  | result {a : α} {after : Store σ} (clean : t.Clean shape turns) :
      EndsBy arrives turns (.ok a) after
  | fault {earlier : List (Turn σ)} {last : Turn σ} {fault : Fault} {after : Store σ}
      (split : turns = earlier ++ [last]) (clean : t.Clean shape earlier)
      (own : t.fault? shape last = some fault) (nothing : (t.ending last).2.Quiet after) :
      EndsBy arrives turns (.error fault) after
  | lost {e : Entry σ} (clean : t.Clean shape turns) (comes : arrives e)
      (unanswerable : t.Unanswerable e.node e.scope) :
      EndsBy arrives turns (.error .missingMember) e.start

variable {t shape}

theorem fault?_of_error {turn : Turn σ} {fault : Fault} {s : Store σ}
    (ended : t.ending turn = (.error fault, s)) (unskipped : turn.skip? fault = none) :
    t.fault? shape turn = some fault := by
  simp only [fault?, ended, unskipped]

private theorem clean_nil : t.Clean shape [] := fun _ member => absurd member List.not_mem_nil

private theorem clean_singleton {turn : Turn σ} (none_there : t.fault? shape turn = none) :
    t.Clean shape [turn] := by
  intro other member
  obtain rfl := List.mem_singleton.mp member
  exact none_there

theorem Clean.append {turns later : List (Turn σ)} (first : t.Clean shape turns)
    (second : t.Clean shape later) : t.Clean shape (turns ++ later) := by
  intro turn member
  rcases List.mem_append.mp member with member | member
  · exact first turn member
  · exact second turn member

private theorem refusal?_of_finish (sound : shape.Sound) {slot : Slot} {kind : Kind}
    {made : Option Expr} {value : Value} {s after : Store σ} {outcome : Except Fault ρ}
    (ran : (t.finish shape slot kind made value).run s = (outcome, after)) :
    (∃ result, outcome = .ok result ∧ t.refusal? shape slot kind made value = none) ∨
      ∃ fault, outcome = .error fault ∧ t.refusal? shape slot kind made value = some fault := by
  unfold finish at ran
  cases accepted : shape.accept made value with
  | some result =>
    rw [accepted] at ran
    obtain ⟨a, s', ended, -⟩ := sound.accept made value result accepted s
    obtain ⟨rfl, -⟩ := Prod.mk.inj (ran.symm.trans ended)
    exact Or.inl ⟨a, rfl, by simp [refusal?, accepted]⟩
  | none =>
    rw [accepted] at ran
    obtain ⟨rfl, -⟩ := Prod.mk.inj ran
    exact Or.inr ⟨_, rfl, by simp [refusal?, accepted]⟩

private theorem fault?_of_conclude (sound : shape.Sound) {turn : Turn σ} {after : Store σ}
    {outcome : Except Fault ρ} (own : turn.slot ≠ .topdown) (noSkip : turn.ctx.visit = none)
    (ran : t.conclude shape turn = (outcome, after)) :
    (∃ result, outcome = .ok result ∧ t.fault? shape turn = none) ∨
      ∃ fault, outcome = .error fault ∧ t.fault? shape turn = some fault := by
  unfold conclude at ran
  unfold fault?
  cases ended : t.ending turn with
  | mk answer s =>
    rw [ended] at ran
    cases answer with
    | ok value =>
      simp only [own, ↓reduceIte]
      exact refusal?_of_finish sound ran
    | error fault =>
      obtain ⟨rfl, -⟩ := Prod.mk.inj ran
      have foreign : turn.skip? fault = none := Turn.skip?_eq_none (by simp [noSkip])
      refine Or.inr ⟨fault, rfl, ?_⟩
      simp only [foreign]

theorem fault?_of_handed {e : Entry σ} {target : Option Identity} {s s₁ : Store σ} {inner : Value}
    (down : t.ending (t.downTurn e target s) = (.ok inner, s₁)) :
    t.fault? shape (t.downTurn e target s) = none := by
  unfold fault?
  rw [down]
  rfl

theorem downTurn_skip?_eq_none {e : Entry σ} {target : Option Identity} {s : Store σ}
    {fault : Fault} (foreign : ∀ value, fault ≠ .skip s.visits value) :
    (t.downTurn e target s).skip? fault = none := by
  refine Turn.skip?_eq_none fun visit value skips given => foreign value ?_
  obtain rfl : s.visits = visit := Option.some.inj given
  exact skips

private theorem fault?_of_skipped (sound : shape.Sound) {e : Entry σ} {target : Option Identity}
    {value : Value} {s s₁ after : Store σ} {outcome : Except Fault ρ}
    (down : t.ending (t.downTurn e target s) = (.error (.skip s.visits value), s₁))
    (ran : (t.endSkipped shape e.node value).run s₁ = (outcome, after)) :
    (∃ result, outcome = .ok result ∧ t.fault? shape (t.downTurn e target s) = none) ∨
      ∃ fault, outcome = .error fault ∧
        t.fault? shape (t.downTurn e target s) = some fault := by
  have skips : (t.downTurn e target s).skip? (.skip s.visits value) = some value := by
    simp [Turn.skip?, downTurn, context]
  rw [endSkipped, Action.run_bind_of_ok (Action.run_note (.skipped e.node.kind) s₁)] at ran
  unfold fault?
  rw [down]
  simp only [skips]
  exact refusal?_of_finish sound ran

theorem EndsBy.mono {arrives arrives' : Entry σ → Prop} {turns : List (Turn σ)}
    {outcome : Except Fault α} {after : Store σ} (ends : t.EndsBy shape arrives turns outcome after)
    (more : ∀ e, arrives e → arrives' e) : t.EndsBy shape arrives' turns outcome after := by
  cases ends with
  | result clean => exact .result clean
  | fault split clean own nothing => exact .fault split clean own nothing
  | lost clean comes unanswerable => exact .lost clean (more _ comes) unanswerable

private theorem EndsBy.of_error {arrives : Entry σ → Prop} {turns : List (Turn σ)} {fault : Fault}
    {after : Store σ} (ends : t.EndsBy shape arrives turns (.error fault : Except Fault α) after) :
    t.EndsBy shape arrives turns (.error fault : Except Fault β) after := by
  cases ends with
  | fault split clean own nothing => exact .fault split clean own nothing
  | lost clean comes unanswerable => exact .lost clean comes unanswerable

private theorem EndsBy.after_clean {arrives : Entry σ → Prop} {turns later : List (Turn σ)}
    {outcome : Except Fault α} {after : Store σ} (first : t.Clean shape turns)
    (ends : t.EndsBy shape arrives later outcome after) (f : α → β) :
    t.EndsBy shape arrives (turns ++ later) (outcome.map f) after := by
  cases ends with
  | result clean => exact .result (first.append clean)
  | fault split clean own nothing =>
    exact .fault (by rw [split, List.append_assoc]) (first.append clean) own nothing
  | lost clean comes unanswerable => exact .lost (first.append clean) comes unanswerable

theorem EndsBy.clean_of_ok {arrives : Entry σ → Prop} {turns : List (Turn σ)} {a : α}
    {after : Store σ} (ends : t.EndsBy shape arrives turns (.ok a) after) :
    t.Clean shape turns := by
  cases ends with
  | result clean => exact clean

private theorem EndsBy.of_last {arrives : Entry σ → Prop} {earlier : List (Turn σ)} {last : Turn σ}
    {outcome : Except Fault α} {after : Store σ} (clean : t.Clean shape earlier)
    (own : (∃ result, outcome = .ok result ∧ t.fault? shape last = none) ∨
      ∃ fault, outcome = .error fault ∧ t.fault? shape last = some fault)
    (nothing : (t.ending last).2.Quiet after) :
    t.EndsBy shape arrives (earlier ++ [last]) outcome after := by
  rcases own with ⟨result, rfl, none_there⟩ | ⟨fault, rfl, there⟩
  · exact .result (clean.append (clean_singleton none_there))
  · exact .fault rfl clean there nothing

mutual

theorem Visited.endsBy (sound : shape.Sound) {e : Entry σ} {turns : List (Turn σ)}
    {outcome : Except Fault ρ} {after : Store σ}
    (visited : t.Visited shape noLeaves e turns outcome after) :
    t.EndsBy shape (t.Arrives e turns) turns outcome after := by
  match visited with
  | .replaced there _ => cases there
  | .leaf _ _ _ own =>
    have fault := fault?_of_conclude sound (ofKind_ne_topdown _) rfl own
    exact .of_last clean_nil fault (quiet_of_conclude sound own)
  | .lost _ _ search =>
    obtain ⟨rfl, rfl, unanswerable⟩ := unanswerable_of_search search
    exact .lost clean_nil (Or.inl rfl) unanswerable
  | .stopped _ _ _ down foreign =>
    have own : t.fault? shape _ = some _ := fault?_of_error down (downTurn_skip?_eq_none foreign)
    refine .fault (List.nil_append _).symm clean_nil own ?_
    rw [down]
    exact .refl after
  | .skipped _ _ _ down ended =>
    have quiet := quiet_of_endSkipped sound ended
    have fault := fault?_of_skipped sound down ended
    exact .of_last clean_nil fault (by rwa [down])
  | .broken _ _ _ down below =>
    have ends := below.endsBy sound
    have first : t.Clean shape [_] := clean_singleton (fault?_of_handed down)
    refine (ends.after_clean first id).of_error.mono fun entry comes => Or.inr ?_
    rcases comes with child | ⟨other, listed, hands⟩
    · exact ⟨_, List.mem_cons_self, rfl, _, congrArg Prod.fst down, child⟩
    · exact ⟨other, List.mem_cons_of_mem _ listed, hands⟩
  | .done _ _ _ down below _ own =>
    have ends := below.endsBy sound
    have first : t.Clean shape [_] := clean_singleton (fault?_of_handed down)
    have fault := fault?_of_conclude sound (ofKind_ne_topdown _) rfl own
    exact .of_last (first.append ends.clean_of_ok) fault (quiet_of_conclude sound own)
termination_by structural visited

theorem VisitedAll.endsBy (sound : shape.Sound) {place : Position} {index : Nat}
    {topdown inherited : Value} {nodes : List Expr} {s after : Store σ} {turns : List (Turn σ)}
    {outcome : Except Fault (List ρ)}
    (visited : t.VisitedAll shape noLeaves place index topdown inherited nodes s turns outcome
      after) :
    t.EndsBy shape (fun e => EntersChild place index topdown inherited nodes e ∨
      ∃ down ∈ turns, t.HandsDown down e) turns outcome after := by
  match visited with
  | .nil => exact .result clean_nil
  | .stop first =>
    have own := first.endsBy sound
    refine own.of_error.mono fun entry comes => comes.imp_left fun same => ?_
    rw [same]
    exact ⟨0, rfl, rfl, rfl, rfl⟩
  | .cons first others =>
    have own := first.endsBy sound
    have rest := others.endsBy sound
    refine (rest.after_clean own.clean_of_ok _).mono fun entry comes => ?_
    rcases comes with enters | ⟨down, listed, hands⟩
    · exact Or.inl enters.later
    · exact Or.inr ⟨down, List.mem_append_right _ listed, hands⟩
termination_by structural visited

end

theorem EndsBy.of_fault {arrives : Entry σ → Prop} {turns : List (Turn σ)}
    {outcome : Except Fault α} {after : Store σ} (ends : t.EndsBy shape arrives turns outcome after)
    {turn : Turn σ} (member : turn ∈ turns) {fault : Fault}
    (own : t.fault? shape turn = some fault) :
    outcome = .error fault ∧ ∃ earlier, turns = earlier ++ [turn] := by
  have unclean {others : List (Turn σ)} (clean : t.Clean shape others) : turn ∉ others := by
    intro there
    cases (clean turn there).symm.trans own
  cases ends with
  | result clean => exact absurd member (unclean clean)
  | lost clean => exact absurd member (unclean clean)
  | @fault earlier last _ _ split clean there =>
    subst split
    rcases List.mem_append.mp member with member | member
    · exact absurd member (unclean clean)
    · obtain rfl := List.mem_singleton.mp member
      obtain rfl := Option.some.inj (own.symm.trans there)
      exact ⟨rfl, earlier, rfl⟩

/-- What becomes of a run whose handlers take up no faults. -/
structure FirstFault (t : Traversal σ) (shape : Shape σ ρ) (first : Entry σ)
    (turns : List (Turn σ)) (ran : Except Fault ρ × Store σ) : Prop where
  course : t.Course shape first turns ran
  ends : t.EndsBy shape (t.Arrives first turns) turns ran.1 ran.2
  succeeds : t.Clean shape turns →
    (∀ e, t.Arrives first turns e → e.start = ran.2 → ¬ t.Unanswerable e.node e.scope) →
      ∃ result, ran.1 = .ok result
  raised : ∀ turn ∈ turns, t.Candid turn → ∀ fault s,
    t.ending turn = (.error fault, s) ↔ t.Raised turn fault s

private theorem firstFault_of_course (sound : shape.Sound) {first : Entry σ} {turns : List (Turn σ)}
    {ran : Except Fault ρ × Store σ} (course : t.Course shape first turns ran) :
    t.FirstFault shape first turns ran := by
  have ends := course.visited.endsBy sound
  refine ⟨course, ends, fun clean answered => ?_, fun _ _ candid _ _ => ending_eq_error_iff candid⟩
  obtain ⟨outcome, after⟩ := ran
  cases ends with
  | result => exact ⟨_, rfl⟩
  | @fault _ last _ _ split _ own =>
    have listed : last ∈ turns := by simp [split]
    cases (clean last listed).symm.trans own
  | lost _ comes unanswerable => exact absurd unanswerable (answered _ comes rfl)

/-- A run ends with its first fault, in an analysis and in a transformation. -/
theorem first_fault_ends_run (t : Traversal σ) (topdown : Value) (scope : Option Scope)
    (expr : Expr) (s : Store σ) :
    (∃ turns, t.FirstFault .analysis (rootEntry topdown scope expr s) turns
      ((t.analyse topdown (scope.getD Scope.empty) expr).run s)) ∧
    ∃ turns, t.FirstFault .transforming (rootEntry topdown scope expr s) turns
      ((t.transform topdown (scope.getD Scope.empty) expr).run s) := by
  constructor
  · obtain ⟨turns, course⟩ := t.exists_course Shape.analysis_sound (rootEntry topdown scope expr s)
    exact ⟨turns, firstFault_of_course Shape.analysis_sound course⟩
  · obtain ⟨turns, course⟩ :=
      t.exists_course Shape.transforming_sound (rootEntry topdown scope expr s)
    exact ⟨turns, firstFault_of_course Shape.transforming_sound course⟩

/-- A call whose first node carries a number as its scope ends the run before any chain is run, if
some object has handlers of its own. -/
theorem foreign_scope_ends_run :
    let t : Traversal Unit :=
      ⟨(Config.standard .analyse).addCall (.named "g") fun node ctx => ctx.callNext node, {}, none,
        []⟩
    let first : Entry Unit := rootEntry .none none (.call 0 (.symbol 1 "f") [])
      { Store.initial () with tables := #[[(Node.scopeKey, .int 3)], []] }
    t.Visited .analysis noLeaves first [] (.error .missingMember) first.start ∧
      t.Clean .analysis [] :=
  ⟨.lost rfl rfl rfl, clean_nil⟩

end Traversal

end TreePass
