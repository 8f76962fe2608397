import TreePass.Proofs.Turns.Visits
import TreePass.Proofs.Transforming.Isolation
import TreePass.Proofs.Transforming.Reproduction
import Mathlib.Data.List.Pairwise

/-!
The order of turns. The way down into a node comes before every turn at or below its place, the turn
of its own shape comes after all of them, and siblings come from left to right. Between two turns
nothing changes what handlers keep or the metadata of a node.
-/

set_option autoImplicit false
set_option relaxedAutoImplicit false

namespace TreePass

variable {σ ρ : Type}

/-- Between two stores no metadata of a node that existed has changed, and handlers keep what they
kept. -/
structure Store.Quiet (before after : Store σ) : Prop where
  spares : Store.Spares (fun _ => True) before after
  user : after.user = before.user
  visits : before.visits ≤ after.visits

namespace Store

theorem Quiet.refl (s : Store σ) : Quiet s s := ⟨spares_of_tables_eq rfl, rfl, Nat.le_refl _⟩

theorem Quiet.trans {a b c : Store σ} (first : Quiet a b) (second : Quiet b c) : Quiet a c :=
  ⟨(spares_bound _).trans first.spares second.spares, second.user.trans first.user,
    Nat.le_trans first.visits second.visits⟩

theorem Quiet.of_tables_eq {before after : Store σ} (tables : after.tables = before.tables)
    (user : after.user = before.user) (visits : before.visits ≤ after.visits) :
    Quiet before after :=
  ⟨spares_of_tables_eq tables, user, visits⟩

theorem Quiet.of_run {α : Type} {action : Action σ α} {outcome : Except Fault α} {s s' : Store σ}
    (ran : action.run s = (outcome, s')) (frame : Frame [] s s') : Quiet s s' where
  spares := (spares_bound _).frame frame
  user := frame.user
  visits := by
    have grown := (action.grows s).visits
    rwa [ran] at grown

end Store

/-- The right to skip that a turn is given was never given before. -/
def Turn.Fresh (turn : Turn σ) (s : Store σ) : Prop :=
  ∀ visit, turn.ctx.visit = some visit → s.visits ≤ visit ∧ visit < turn.before.visits

namespace Traversal

variable {t : Traversal σ} {shape : Shape σ ρ}

/-- The search for a target fails where a variable is called, some object has handlers of its own
and what is in force as a scope is none. -/
def Unanswerable (t : Traversal σ) (node : Expr) (scope : Value) : Prop :=
  t.config.hasTargets = true ∧
    (∃ tag tag' name args, node = .call tag (.symbol tag' name) args) ∧ ∀ x, scope ≠ .scope x

/-- The search for a target ends in the same way in every store: with an answer or, where there is
none, with a fault. It leaves nothing but warnings and notes. -/
theorem resolve_cases (callee : Expr) (scope : Value) :
    (∃ target, ∀ s : Store σ, ∃ warnings notes, (t.resolve callee scope).run s =
      (.ok target, { s with warnings := warnings, notes := notes })) ∨
    ((∀ s : Store σ, (t.resolve callee scope).run s = (.error .missingMember, s)) ∧
      t.config.hasTargets = true ∧ (∃ tag name, callee = .symbol tag name) ∧
        ∀ x, scope ≠ .scope x) := by
  have unresolved (found : t.resolve callee scope = pure none) :
      ∃ target, ∀ s : Store σ, ∃ warnings notes, (t.resolve callee scope).run s =
        (.ok target, { s with warnings := warnings, notes := notes }) :=
    ⟨none, fun s => ⟨s.warnings, s.notes, by rw [found]; rfl⟩⟩
  have dispatched (identity : Identity)
      (found : ∀ s, (t.resolve callee scope).run s = (t.dispatch identity).run s) :
      ∃ target, ∀ s : Store σ, ∃ warnings notes, (t.resolve callee scope).run s =
        (.ok target, { s with warnings := warnings, notes := notes }) := by
    refine ⟨if t.config.isRegistered identity then some identity else none, fun s => ?_⟩
    obtain ⟨notes, ran⟩ := t.run_dispatch identity s
    exact ⟨s.warnings, notes, (found s).trans ran⟩
  cases targets : t.config.hasTargets with
  | false => exact Or.inl (unresolved (t.resolve_of_no_targets targets callee scope))
  | true =>
    cases callee with
    | atomic | pairlist | call =>
      exact Or.inl (unresolved (by simp only [resolve, targets, ↓reduceIte]))
    | primitive tag ref =>
      exact Or.inl (dispatched ref fun s => by simp only [resolve, targets, ↓reduceIte])
    | symbol tag name =>
      cases bound : scope.isBound name with
      | error fault =>
        have foreign : ∀ x, scope ≠ .scope x := by
          rintro x rfl
          cases bound
        have missing : fault = .missingMember := by
          cases scope with
          | scope x => cases bound
          | _ => exact (Except.error.inj bound).symm
        refine Or.inr ⟨fun s => ?_, rfl, ⟨tag, name, rfl⟩, foreign⟩
        simp only [resolve, targets, ↓reduceIte, bound, missing]
        rfl
      | ok found =>
        refine Or.inl ?_
        cases found with
        | true =>
          refine ⟨none, fun s => ?_⟩
          obtain ⟨notes, ran⟩ := t.run_resolve_of_bound targets tag bound s
          exact ⟨_, notes, ran⟩
        | false =>
          cases known : t.lookup name with
          | none =>
            refine ⟨none, fun s => ?_⟩
            obtain ⟨notes, ran⟩ := t.run_resolve_of_unknown targets tag bound known s
            exact ⟨_, notes, ran⟩
          | some identity =>
            exact dispatched identity fun s => t.resolve_of_known targets tag bound known s

theorem targetOf_cases (node : Expr) (scope : Value) :
    (∃ target, ∀ s : Store σ, ∃ warnings notes, (t.targetOf node scope).run s =
      (.ok target, { s with warnings := warnings, notes := notes })) ∨
    ((∀ s : Store σ, (t.targetOf node scope).run s = (.error .missingMember, s)) ∧
      t.Unanswerable node scope) := by
  cases node with
  | atomic | symbol | primitive | pairlist =>
    exact Or.inl ⟨none, fun s => ⟨s.warnings, s.notes, rfl⟩⟩
  | call tag callee args =>
    rcases t.resolve_cases callee scope with answered | ⟨ran, targets, called, foreign⟩
    · exact Or.inl answered
    · obtain ⟨tag', name, rfl⟩ := called
      exact Or.inr ⟨ran, targets, ⟨tag, tag', name, args, rfl⟩, foreign⟩

theorem unanswerable_of_search {node : Expr} {scope : Value} {s after : Store σ} {fault : Fault}
    (search : (t.targetOf node scope).run s = (.error fault, after)) :
    fault = .missingMember ∧ after = s ∧ t.Unanswerable node scope := by
  rcases t.targetOf_cases node scope with ⟨_, answered⟩ | ⟨failed, unanswerable⟩
  · obtain ⟨_, _, ran⟩ := answered s
    cases search.symm.trans ran
  · obtain ⟨given, rfl⟩ := Prod.mk.inj (search.symm.trans (failed s))
    exact ⟨Except.error.inj given, rfl, unanswerable⟩

theorem target_unique {node : Expr} {scope : Value} {target target' : Option Identity}
    {s s' after after' : Store σ}
    (search : (t.targetOf node scope).run s = (.ok target, after))
    (search' : (t.targetOf node scope).run s' = (.ok target', after')) : target' = target := by
  rcases t.targetOf_cases node scope with ⟨_, answered⟩ | ⟨failed, -⟩
  · obtain ⟨_, _, once⟩ := answered s
    obtain ⟨_, _, again⟩ := answered s'
    obtain ⟨rfl, -⟩ := Action.ok_inj (search.symm.trans once)
    exact (Action.ok_inj (search'.symm.trans again)).1
  · cases search.symm.trans (failed s)

theorem quiet_of_search {e : Entry σ} {target : Option Identity} {s : Store σ}
    (search : (t.targetOf e.node e.scope).run e.start = (.ok target, s)) :
    Store.Quiet e.start s := by
  rcases t.targetOf_cases e.node e.scope with ⟨_, answered⟩ | ⟨failed, -⟩
  · obtain ⟨_, _, ran⟩ := answered e.start
    obtain ⟨-, rfl⟩ := Action.ok_inj (search.symm.trans ran)
    exact .of_tables_eq rfl rfl (Nat.le_refl _)
  · cases search.symm.trans (failed e.start)

theorem quiet_before (e : Entry σ) (target : Option Identity) (s : Store σ) :
    Store.Quiet s (t.downTurn e target s).before :=
  .of_tables_eq rfl rfl (Nat.le_succ _)

/-- Taking a result makes at most new nodes, and refusing one changes nothing. -/
theorem quiet_of_finish (sound : shape.Sound) {slot : Slot} {kind : Kind} {made : Option Expr}
    {value : Value} {s s' : Store σ} {outcome : Except Fault ρ}
    (ran : (t.finish shape slot kind made value).run s = (outcome, s')) : Store.Quiet s s' := by
  unfold finish at ran
  split at ran
  · rename_i result accepted
    obtain ⟨a, s'', ended, frame⟩ := sound.accept made value result accepted s
    obtain ⟨-, rfl⟩ := Prod.mk.inj (ran.symm.trans ended)
    exact .of_run ended frame
  · obtain ⟨-, rfl⟩ := Prod.mk.inj ran
    exact .refl s

theorem quiet_of_endSkipped (sound : shape.Sound) {node : Expr} {value : Value} {s s' : Store σ}
    {outcome : Except Fault ρ}
    (ran : (t.endSkipped shape node value).run s = (outcome, s')) : Store.Quiet s s' := by
  rw [endSkipped, Action.run_bind_of_ok (Action.run_note (.skipped node.kind) s)] at ran
  have noted : Store.Quiet s { s with notes := s.notes.push (.skipped node.kind) } :=
    .of_tables_eq rfl rfl (Nat.le_refl _)
  exact noted.trans (quiet_of_finish sound ran)

theorem quiet_of_conclude (sound : shape.Sound) {turn : Turn σ} {s' : Store σ}
    {outcome : Except Fault ρ} (ran : t.conclude shape turn = (outcome, s')) :
    Store.Quiet (t.ending turn).2 s' := by
  cases ended : t.ending turn with
  | mk answer s =>
    rw [conclude, ended] at ran
    cases answer with
    | ok value => exact quiet_of_finish sound ran
    | error fault =>
      obtain ⟨-, rfl⟩ := Prod.mk.inj ran
      exact .refl s

/-- The turns lead from one store to another, and between them all is quiet: so whatever handlers do
is done in these turns. -/
def Linked (t : Traversal σ) : Store σ → List (Turn σ) → Store σ → Prop
  | s, [], after => s.Quiet after
  | s, turn :: rest, after =>
    (s.Quiet turn.before ∧ turn.Fresh s) ∧ Linked t (t.ending turn).2 rest after

private theorem fresh_of_quiet {turn : Turn σ} {s s' : Store σ} (quiet : s.Quiet s')
    (fresh : turn.Fresh s') : turn.Fresh s := fun visit given =>
  ⟨Nat.le_trans quiet.visits (fresh visit given).1, (fresh visit given).2⟩

private theorem downTurn_fresh (e : Entry σ) (target : Option Identity) {s : Store σ}
    (quiet : e.start.Quiet s) : (t.downTurn e target s).Fresh e.start := by
  refine fresh_of_quiet quiet fun visit given => ?_
  obtain rfl : s.visits = visit := Option.some.inj given
  exact ⟨Nat.le_refl _, Nat.lt_succ_self _⟩

private theorem ownTurn_fresh (e : Entry σ) (target : Option Identity) (topdown : Value)
    (bottomup : Option (List Value)) (made : Expr) (s s' : Store σ) :
    (t.ownTurn e target topdown bottomup made s).Fresh s' := fun visit given => by cases given

private theorem Linked.after_quiet {s s' after : Store σ} {turns : List (Turn σ)}
    (quiet : s.Quiet s') (linked : t.Linked s' turns after) : t.Linked s turns after := by
  cases turns with
  | nil => exact quiet.trans linked
  | cons turn rest =>
    exact ⟨⟨quiet.trans linked.1.1, fresh_of_quiet quiet linked.1.2⟩, linked.2⟩

theorem Linked.append {s s' after : Store σ} {turns later : List (Turn σ)}
    (first : t.Linked s turns s') (second : t.Linked s' later after) :
    t.Linked s (turns ++ later) after := by
  induction turns generalizing s with
  | nil => exact Linked.after_quiet first second
  | cons turn rest ih => exact ⟨first.1, ih first.2⟩

variable {leaves : Position → Option (Action σ ρ)}

mutual

theorem Visited.linked (sound : shape.Sound) {e : Entry σ} {turns : List (Turn σ)}
    {outcome : Except Fault ρ} {after : Store σ}
    (visited : t.Visited shape noLeaves e turns outcome after) : t.Linked e.start turns after := by
  match visited with
  | .replaced there _ => cases there
  | .leaf _ _ readied own =>
    have made := (sound.leaf e.node e.start).of_ran readied
    exact ⟨⟨.of_run readied made, ownTurn_fresh _ _ _ _ _ _ _⟩, quiet_of_conclude sound own⟩
  | .lost _ _ search =>
    obtain ⟨-, rfl, -⟩ := unanswerable_of_search search
    exact Store.Quiet.refl e.start
  | .stopped _ _ search down _ =>
    have quiet := quiet_of_search search
    refine ⟨⟨quiet.trans (quiet_before e _ _), downTurn_fresh e _ quiet⟩, ?_⟩
    rw [down]
    exact Store.Quiet.refl after
  | .skipped _ _ search down ended =>
    have quiet := quiet_of_search search
    refine ⟨⟨quiet.trans (quiet_before e _ _), downTurn_fresh e _ quiet⟩, ?_⟩
    rw [down]
    exact quiet_of_endSkipped sound ended
  | .broken _ _ search down below =>
    have inside := below.linked sound
    have quiet := quiet_of_search search
    refine ⟨⟨quiet.trans (quiet_before e _ _), downTurn_fresh e _ quiet⟩, ?_⟩
    rw [down]
    exact inside
  | .done _ composite search down below readied own =>
    have inside := below.linked sound
    have made := (sound.composite e.node _ _ composite below.length).of_ran readied
    have quiet := quiet_of_search search
    refine ⟨⟨quiet.trans (quiet_before e _ _), downTurn_fresh e _ quiet⟩, ?_⟩
    rw [down]
    exact inside.append
      ⟨⟨.of_run readied made, ownTurn_fresh _ _ _ _ _ _ _⟩, quiet_of_conclude sound own⟩
termination_by structural visited

theorem VisitedAll.linked (sound : shape.Sound) {place : Position} {index : Nat}
    {topdown inherited : Value} {nodes : List Expr} {s after : Store σ} {turns : List (Turn σ)}
    {outcome : Except Fault (List ρ)}
    (visited : t.VisitedAll shape noLeaves place index topdown inherited nodes s turns outcome
      after) : t.Linked s turns after := by
  match visited with
  | .nil => exact Store.Quiet.refl s
  | .stop first => exact first.linked sound
  | .cons first others =>
    have early := first.linked sound
    have late := others.linked sound
    exact early.append late
termination_by structural visited

end

mutual

theorem Visited.within {e : Entry σ} {turns : List (Turn σ)} {outcome : Except Fault ρ}
    {after : Store σ} (visited : t.Visited shape leaves e turns outcome after) :
    ∀ turn ∈ turns, e.place <+: turn.place := by
  match visited with
  | .replaced .. | .lost .. => simp
  | .leaf .. | .stopped .. | .skipped .. =>
    intro turn member
    obtain rfl := List.mem_singleton.mp member
    exact List.prefix_refl _
  | .broken _ _ _ _ below =>
    have inside := below.within
    intro turn member
    rcases List.mem_cons.mp member with rfl | member
    · exact List.prefix_refl _
    · obtain ⟨i, -, further⟩ := inside turn member
      exact (List.prefix_append _ _).trans further
  | .done _ _ _ _ below _ _ =>
    have inside := below.within
    intro turn member
    rcases List.mem_cons.mp member with rfl | member
    · exact List.prefix_refl _
    · rcases List.mem_append.mp member with member | member
      · obtain ⟨i, -, further⟩ := inside turn member
        exact (List.prefix_append _ _).trans further
      · obtain rfl := List.mem_singleton.mp member
        exact List.prefix_refl _
termination_by structural visited

theorem VisitedAll.within {place : Position} {index : Nat} {topdown inherited : Value}
    {nodes : List Expr} {s after : Store σ} {turns : List (Turn σ)}
    {outcome : Except Fault (List ρ)}
    (visited : t.VisitedAll shape leaves place index topdown inherited nodes s turns outcome
      after) : ∀ turn ∈ turns, ∃ i, index ≤ i ∧ place ++ [i] <+: turn.place := by
  match visited with
  | .nil => simp
  | .stop first =>
    have own := first.within
    exact fun turn member => ⟨index, Nat.le_refl _, own turn member⟩
  | .cons first others =>
    have own := first.within
    have later := others.within
    intro turn member
    rcases List.mem_append.mp member with member | member
    · exact ⟨index, Nat.le_refl _, own turn member⟩
    · obtain ⟨i, beyond, further⟩ := later turn member
      exact ⟨i, Nat.le_of_succ_le beyond, further⟩
termination_by structural visited

end

end Traversal

/-- One turn stands before another: it is the way down to it, or the other is of the shape of a node
above it, or they are at or below siblings from left to right. At one place there is one visit. -/
def Turn.Precedes (a b : Turn σ) : Prop :=
  (a.slot = .topdown ∧ a.place <+: b.place ∧
      (b.place = a.place → b.slot ≠ .topdown ∧ b.entry = a.entry)) ∨
    (b.slot ≠ .topdown ∧ b.place <+: a.place ∧
      (a.place = b.place → a.slot = .topdown ∧ a.entry = b.entry)) ∨
      ∃ place i j, i < j ∧ place ++ [i] <+: a.place ∧ place ++ [j] <+: b.place

namespace Traversal

variable {t : Traversal σ} {shape : Shape σ ρ} {leaves : Position → Option (Action σ ρ)}

theorem child_not_above (place : Position) (i : Nat) : ¬ place ++ [i] <+: place := by
  intro further
  have longer := further.length_le
  rw [List.length_append, List.length_singleton] at longer
  omega

private theorem down_precedes {e : Entry σ} {target : Option Identity} {s : Store σ} {turn : Turn σ}
    {i : Nat} (below : e.place ++ [i] <+: turn.place) :
    (t.downTurn e target s).Precedes turn := by
  refine Or.inl ⟨rfl, (List.prefix_append _ _).trans below, fun same => ?_⟩
  have here : turn.place = e.place := same
  rw [here] at below
  exact absurd below (child_not_above _ i)

private theorem precedes_own {e : Entry σ} {target : Option Identity} {topdown : Value}
    {bottomup : Option (List Value)} {made : Expr} {s : Store σ} {turn : Turn σ} {i : Nat}
    (below : e.place ++ [i] <+: turn.place) :
    turn.Precedes (t.ownTurn e target topdown bottomup made s) := by
  refine Or.inr (Or.inl ⟨ofKind_ne_topdown _, (List.prefix_append _ _).trans below, fun same => ?_⟩)
  have here : turn.place = e.place := same
  rw [here] at below
  exact absurd below (child_not_above _ i)

mutual

theorem Visited.ordered {e : Entry σ} {turns : List (Turn σ)} {outcome : Except Fault ρ}
    {after : Store σ} (visited : t.Visited shape leaves e turns outcome after) :
    turns.Pairwise Turn.Precedes := by
  match visited with
  | .replaced .. | .lost .. => exact .nil
  | .leaf .. | .stopped .. | .skipped .. => exact List.pairwise_singleton _ _
  | .broken _ _ _ _ below =>
    have inside := below.ordered
    have places := below.within
    refine .cons (fun turn member => ?_) inside
    obtain ⟨i, -, further⟩ := places turn member
    exact down_precedes further
  | .done _ _ _ _ below _ _ =>
    have inside := below.ordered
    have places := below.within
    refine .cons (fun turn member => ?_) (List.pairwise_append.mpr
      ⟨inside, List.pairwise_singleton _ _, fun turn member last listed => ?_⟩)
    · rcases List.mem_append.mp member with member | member
      · obtain ⟨i, -, further⟩ := places turn member
        exact down_precedes further
      · obtain rfl := List.mem_singleton.mp member
        exact Or.inl ⟨rfl, List.prefix_refl _, fun _ => ⟨ofKind_ne_topdown _, rfl⟩⟩
    · obtain rfl := List.mem_singleton.mp listed
      obtain ⟨i, -, further⟩ := places turn member
      exact precedes_own further
termination_by structural visited

theorem VisitedAll.ordered {place : Position} {index : Nat} {topdown inherited : Value}
    {nodes : List Expr} {s after : Store σ} {turns : List (Turn σ)}
    {outcome : Except Fault (List ρ)}
    (visited : t.VisitedAll shape leaves place index topdown inherited nodes s turns outcome
      after) : turns.Pairwise Turn.Precedes := by
  match visited with
  | .nil => exact .nil
  | .stop first => exact first.ordered
  | .cons first others =>
    have early := first.ordered
    have late := others.ordered
    have own := first.within
    have places := others.within
    refine List.pairwise_append.mpr ⟨early, late, fun turn member other listed => ?_⟩
    obtain ⟨i, beyond, further⟩ := places other listed
    exact Or.inr (Or.inr ⟨place, index, i, beyond, own turn member, further⟩)
termination_by structural visited

end

theorem child_unique {place other : Position} {i j : Nat} (first : place ++ [i] <+: other)
    (second : place ++ [j] <+: other) : i = j := by
  have same := (List.prefix_of_prefix_length_le first second (by simp)).eq_of_length (by simp)
  simpa using same

private theorem eq_or_precedes {turns : List (Turn σ)} (ordered : turns.Pairwise Turn.Precedes)
    {a b : Turn σ} (first : a ∈ turns) (second : b ∈ turns) :
    a = b ∨ a.Precedes b ∨ b.Precedes a := by
  -- What holds of turns in order, of each turn with itself and both ways round holds of any two.
  have either : turns.Pairwise fun a b => a = b ∨ a.Precedes b ∨ b.Precedes a :=
    ordered.imp fun before => Or.inr (Or.inl before)
  have : Std.Symm fun a b : Turn σ => a = b ∨ a.Precedes b ∨ b.Precedes a := by
    constructor
    rintro x y (same | before | after)
    · exact Or.inl same.symm
    · exact Or.inr (Or.inr before)
    · exact Or.inr (Or.inl after)
  have itself : ∀ x ∈ turns, x = x ∨ x.Precedes x ∨ x.Precedes x := fun _ _ => Or.inl rfl
  exact List.Pairwise.forall_of_forall (R := fun a b => a = b ∨ a.Precedes b ∨ b.Precedes a)
    itself either first second

private theorem entry_eq_of_precedes {a b : Turn σ} (before : a.Precedes b)
    (same : a.place = b.place) : a.entry = b.entry := by
  rcases before with ⟨-, -, own⟩ | ⟨-, -, own⟩ | ⟨place, i, j, less, left, right⟩
  · exact (own same.symm).2.symm
  · exact (own same).2
  · rw [same] at left
    have equal := child_unique left right
    omega

theorem entry_eq_of_place_eq {turns : List (Turn σ)} (ordered : turns.Pairwise Turn.Precedes)
    {a b : Turn σ} (first : a ∈ turns) (second : b ∈ turns) (same : a.place = b.place) :
    a.entry = b.entry := by
  rcases eq_or_precedes ordered first second with rfl | before | after
  · rfl
  · exact entry_eq_of_precedes before same
  · exact (entry_eq_of_precedes after same.symm).symm

end Traversal

end TreePass
