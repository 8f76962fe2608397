import TreePass.Proofs.Scoping.Widening
import TreePass.Proofs.Turns.Places
import TreePass.Proofs.Turns.Replacing
import TreePass.Proofs.Turns.Skipping

/-!
Targets under two policies. Where more names are bound, fewer variables name an object. So a call
that has a target when a function is annotated under the wider policy has it under the narrower one
too, unless a run under the narrower policy never gets there: what is above the call may have
handlers of its own then, and these may skip it.
-/

set_option autoImplicit false
set_option relaxedAutoImplicit false

namespace TreePass

variable {σ ρ : Type}

def Turn.FindsStamp (turn : Turn σ) (s : Store σ) : Prop :=
  turn.entry.start.stamp? turn.entry.node = s.stamp? turn.entry.node

namespace Traversal

variable {t : Traversal σ} {shape : Shape σ ρ}

private theorem resolve_congr {callee callee' : Expr} (same : callee.bare = callee'.bare)
    {scope scope' : Scope}
    (asked : ∀ name, callee'.symbolName? = some name → scope.isBound name = scope'.isBound name) :
    t.resolve callee (.scope scope) = t.resolve callee' (.scope scope') := by
  cases callee with
  | symbol tag name =>
    cases callee' with
    | symbol tag' name' =>
      obtain rfl : name = name' := (Node.symbol.inj same).2
      simp only [resolve, Value.isBound, asked name rfl]
    | atomic | primitive | pairlist | call => cases same
  | primitive tag ref =>
    cases callee' with
    | primitive tag' ref' =>
      obtain rfl : ref = ref' := (Node.primitive.inj same).2
      rfl
    | atomic | symbol | pairlist | call => cases same
  | atomic | pairlist | call => cases callee' <;> first | rfl | cases same

private theorem target_of_contained {node node' : Expr} (same : node.bare = node'.bare)
    {scope scope' : Scope} (less : scope.bound ⊆ scope'.bound) {target : Option Identity}
    {identity : Identity} {s s₁ s' s₁' : Store σ}
    (search : (t.targetOf node (.scope scope)).run s = (.ok target, s₁))
    (search' : (t.targetOf node' (.scope scope')).run s' = (.ok (some identity), s₁')) :
    target = some identity := by
  cases node' with
  | atomic | symbol | primitive | pairlist => cases search'
  | call tag' callee' args' =>
    cases node with
    | atomic | symbol | primitive | pairlist => cases same
    | call tag callee args =>
      have callees : callee.bare = callee'.bare := (Node.call.inj same).2.1
      have free (name : String) (called : callee'.symbolName? = some name) :
          scope'.isBound name = false := by
        cases callee' with
        | atomic | primitive | pairlist | call => cases called
        | symbol tag'' other =>
          obtain rfl := Option.some.inj called
          by_contra bound
          rw [Bool.not_eq_false] at bound
          -- A bound name is no target, whatever it names outside.
          cases targets : t.config.hasTargets with
          | false =>
            rw [targetOf, t.resolve_of_no_targets targets] at search'
            cases search'
          | true =>
            have asked : (Value.scope scope').isBound other = .ok true := congrArg Except.ok bound
            obtain ⟨notes, ran⟩ := t.run_resolve_of_bound targets tag'' asked s'
            cases search'.symm.trans ran
      have searches : t.targetOf (.call tag callee args) (.scope scope) =
          t.targetOf (.call tag' callee' args') (.scope scope') := by
        refine resolve_congr callees fun name called => ?_
        have free' := free name called
        rw [free']
        simp only [Scope.isBound, List.contains_eq_mem, decide_eq_false_iff_not] at free' ⊢
        exact fun member => free' (less member)
      rw [searches] at search
      exact target_unique search' search

variable {first first' : Entry σ} {turns turns' : List (Turn σ)}
  {ran ran' : Except Fault ρ × Store σ}

private theorem Course.exists_search (course : t.Course shape first turns ran) {turn : Turn σ}
    (member : turn ∈ turns) (composite : turn.entry.node.kind.isComposite = true) :
    ∃ s, (t.targetOf turn.entry.node turn.entry.scope).run turn.entry.start =
      (.ok turn.target, s) := by
  have searched {down : Turn σ} (listed : down ∈ turns) (topdown : down.slot = .topdown) :
      ∃ s, (t.targetOf down.entry.node down.entry.scope).run down.entry.start =
        (.ok down.target, s) := by
    obtain ⟨e, target, s, rfl, search⟩ := (course.accounted down listed).1.exists_downTurn topdown
    exact ⟨s, search⟩
  cases (course.accounted turn member).1 with
  | down => exact searched member rfl
  | leaf simple => cases composite.symm.trans simple
  | up _ entered =>
    have ofDown := searched entered rfl
    exact ofDown

private theorem Course.composite_of_target (course : t.Course shape first turns ran) {turn : Turn σ}
    (member : turn ∈ turns) {identity : Identity} (target : turn.target = some identity) :
    turn.entry.node.kind.isComposite = true := by
  cases (course.accounted turn member).1 with
  | down composite | up composite => exact composite
  | leaf => cases target

private theorem Course.gave_of_not_skips (course : t.Course shape first turns ran)
    (sound : shape.Sound)
    {result : ρ} (ended : ran.1 = .ok result) {down : Turn σ} (member : down ∈ turns)
    (unskipped : ∀ value s, ¬ t.Skips down value s) : ∃ inner, (t.ending down).1 = .ok inner := by
  have visited := course.visited
  rw [ended] at visited
  have clean := (visited.endsBy sound).clean_of_ok down member
  cases ending : t.ending down with
  | mk answer s =>
    cases answer with
    | ok inner => exact ⟨inner, rfl⟩
    | error fault =>
      have noSkip : down.skip? fault = none := by
        refine Turn.skip?_eq_none fun visit value given own => ?_
        exact unskipped value s ⟨visit, own, by rw [ending, given]⟩
      simp only [fault?, ending, noSkip] at clean
      cases clean

private theorem Course.findsStamp (course : t.Course shape first turns ran) (sound : shape.Sound)
    (root : first.place = []) {stamped : Store σ}
    (live : ∀ n ∈ first.node.nodes, n.tag < stamped.tables.size) (still : t.Still)
    (kept : stamped.Keeps first.start) : ∀ turn ∈ turns, turn.FindsStamp stamped := by
  intro turn member
  obtain ⟨keeps, -⟩ := course.visited.keeps sound still kept
  have inside := (comesTo_of_at? (course.node_at root member)).mem_nodes
  exact (keeps turn member).1.stamp?_eq (live _ inside)

private theorem Course.comes_to_child (course : t.Course shape first turns ran)
    (sound : shape.Sound)
    {result : ρ} (ended : ran.1 = .ok result) {turn : Turn σ} (member : turn ∈ turns)
    (composite : turn.entry.node.kind.isComposite = true)
    (unskipped : ∀ down ∈ turns, down.place = turn.place → ∀ value s, ¬ t.Skips down value s)
    {i : Nat} (less : i < (traversed turn.entry.node).length) :
    ∃ next ∈ turns, next.place = turn.place ++ [i] := by
  obtain ⟨down, listed, topdown, own⟩ :=
    (course.accounted turn member).1.exists_down member composite
  have here : down.place = turn.place := by rw [Turn.place, own, Turn.place]
  obtain ⟨inner, gave⟩ := course.gave_of_not_skips sound ended listed (unskipped down listed here)
  obtain ⟨-, children⟩ := course.visited.complete result ended down listed topdown inner gave
  obtain ⟨next, found, placed⟩ := children i (by rwa [own])
  exact ⟨next, found, by rw [placed, here]⟩

/-- No turn of a run skips the visit that a turn at some place belongs to, nor one above it. -/
def Uninterrupted (t : Traversal σ) (turns : List (Turn σ)) (turn : Turn σ) : Prop :=
  ∀ down ∈ turns, down.place <+: turn.place → (down.place = turn.place → turn.slot ≠ .topdown) →
    ∀ value s, ¬ t.Skips down value s

section

variable (course : t.Course shape first turns ran) (course' : t.Course shape first' turns' ran')
  (sound : shape.Sound) (root : first.place = []) (root' : first'.place = [])
  (same : first.node.bare = first'.node.bare) {result : ρ} (ended : ran.1 = .ok result)

include course course' sound root root' same ended

/-- A run that ends with a result comes to every place that a run over a tree of the same structure
comes to, unless it skips a node above. -/
theorem Course.comes_to {turn' : Turn σ} (member' : turn' ∈ turns')
    (unskipped : ∀ down ∈ turns, down.place <+: turn'.place → down.place ≠ turn'.place →
      ∀ value s, ¬ t.Skips down value s) : ∃ turn ∈ turns, turn.place = turn'.place := by
  generalize placed : turn'.place = place at unskipped ⊢
  induction place using List.reverseRecOn generalizing turn' with
  | nil =>
    have visited := course.visited
    rw [ended] at visited
    obtain ⟨turn, member, entered⟩ := visited.exists_turn
    exact ⟨turn, member, by rw [Turn.place, entered, root]⟩
  | append_singleton place i ih =>
    obtain ⟨down', listed', topdown', above, child⟩ :=
      (course'.accounted turn' member').2.is_child root' placed
    have unskippedAt {down : Turn σ} (listed : down ∈ turns) (further : down.place <+: place) :
        ∀ value s, ¬ t.Skips down value s := by
      refine unskipped down listed (further.trans (List.prefix_append _ _)) fun equal => ?_
      exact child_not_above place i (equal ▸ further)
    obtain ⟨turn, member, here⟩ := ih listed' above fun down listed further _ =>
      unskippedAt listed further
    -- The node above is composite with as many children in both trees.
    have bare := course.bare_eq course' root root' same member listed' (here.trans above.symm)
    have composite : turn.entry.node.kind.isComposite = true := by
      rw [Node.kind_eq_of_bare_eq bare]
      exact (course'.accounted down' listed').1.composite_of_down topdown'
    have count : (traversed turn.entry.node).length = (traversed down'.entry.node).length := by
      have lengths := congrArg (fun node => (traversed node).length) bare
      simpa [Node.traversed_bare] using lengths
    have less : i < (traversed turn.entry.node).length :=
      count ▸ (List.getElem?_eq_some_iff.mp child).1
    rw [← here]
    refine course.comes_to_child sound ended member composite (fun down listed equal => ?_) less
    exact unskippedAt listed (equal.trans here ▸ List.prefix_refl _)

/-- At a place that both runs come to, the one has a turn of every slot that the other has, unless
it skips the node. -/
theorem Course.exists_slot {turn turn' : Turn σ} (member : turn ∈ turns)
    (member' : turn' ∈ turns') (together : turn.place = turn'.place)
    (unskipped : turn'.slot ≠ .topdown → ∀ down ∈ turns, down.place = turn'.place →
      ∀ value s, ¬ t.Skips down value s) :
    ∃ other ∈ turns, other.place = turn'.place ∧ other.slot = turn'.slot := by
  have accounted := (course.accounted turn member).1
  have accounted' := (course'.accounted turn' member').1
  have kind := Node.kind_eq_of_bare_eq
    (course.bare_eq course' root root' same member member' together)
  cases composite : turn.entry.node.kind.isComposite with
  | false =>
    have own : turn.slot ≠ .topdown := fun topdown => by
      cases composite.symm.trans (accounted.composite_of_down topdown)
    have own' : turn'.slot ≠ .topdown := fun topdown => by
      cases composite.symm.trans (kind ▸ accounted'.composite_of_down topdown)
    refine ⟨turn, member, together, ?_⟩
    rw [accounted.slot_eq_ofKind own, accounted'.slot_eq_ofKind own', kind]
  | true =>
    obtain ⟨down, listed, topdown, entered⟩ := accounted.exists_down member composite
    have here : down.place = turn'.place := by rw [Turn.place, entered, ← together, Turn.place]
    by_cases topdown' : turn'.slot = .topdown
    · exact ⟨down, listed, here, by rw [topdown, topdown']⟩
    · obtain ⟨inner, gave⟩ := course.gave_of_not_skips sound ended listed
        (unskipped topdown' down listed here)
      obtain ⟨⟨other, found, there, own⟩, -⟩ :=
        course.visited.complete result ended down listed topdown inner gave
      refine ⟨other, found, by rw [Turn.place, there, ← here, Turn.place], ?_⟩
      rw [(course.accounted other found).1.slot_eq_ofKind own,
        accounted'.slot_eq_ofKind topdown', there, entered, kind]

/-- A run that ends with a result has every turn that a run over a tree of the same structure has,
unless it skips the node or one above. -/
theorem Course.exists_turn {turn' : Turn σ} (member' : turn' ∈ turns')
    (uninterrupted : t.Uninterrupted turns turn') :
    ∃ turn ∈ turns, turn.place = turn'.place ∧ turn.slot = turn'.slot := by
  obtain ⟨turn, member, together⟩ := course.comes_to course' sound root root' same ended member'
    fun down listed further apart =>
      uninterrupted down listed further fun equal => absurd equal apart
  refine course.exists_slot course' sound root root' same ended member member' together
    fun own down listed equal => ?_
  exact uninterrupted down listed (equal ▸ List.prefix_refl _) fun _ => own

end

/-- Two runs, of which one puts the handlers of a target in front of its chains wherever the other
one does: at the nodes that both find stamped as in the given stores, and unless it skips a node at
or above. -/
structure Covers (t : Traversal σ) (shape : Shape σ ρ) (first first' : Entry σ)
    (stamped stamped' : Store σ) (turns turns' : List (Turn σ))
    (ran ran' : Except Fault ρ × Store σ) : Prop where
  course : t.Course shape first turns ran
  course' : t.Course shape first' turns' ran'
  finds : t.Still → stamped.Keeps first.start → ∀ turn ∈ turns, turn.FindsStamp stamped
  finds' : t.Still → stamped'.Keeps first'.start → ∀ turn' ∈ turns', turn'.FindsStamp stamped'
  target : ∀ turn ∈ turns, ∀ turn' ∈ turns', turn.place = turn'.place →
    turn.FindsStamp stamped → turn'.FindsStamp stamped' →
      ∀ identity, turn'.target = some identity → turn.target = some identity
  comes : ∀ result, ran.1 = .ok result → ∀ turn' ∈ turns', t.Uninterrupted turns turn' →
    ∃ turn ∈ turns, turn.place = turn'.place ∧ turn.slot = turn'.slot

end Traversal

section

variable {wide narrow : Policy} (widens : wide.Widens narrow) {fn out out' : Function}
  {before before' after after' : Store σ}

include widens

/-- At one place of a body annotated under both policies, more is bound under the wider one. -/
theorem Policy.Widens.stamps_at (annotated : narrow.Annotated fn before out after)
    (annotated' : wide.Annotated fn before' out' after') {place : Position} {n n' : Expr}
    (found : Node.at? place out.body = some n) (found' : Node.at? place out'.body = some n') :
    ∃ scope scope' : Scope, after.stamp? n = some (.scope scope) ∧
      after'.stamp? n' = some (.scope scope') ∧ scope.bound ⊆ scope'.bound := by
  have same := annotated.sameStructure.trans annotated'.sameStructure.symm
  have bottom : [out.literal].map Literal.bare = [out'.literal].map Literal.bare := by
    rw [List.map_singleton, same.literal, List.map_singleton]
  obtain ⟨stack, stack', standing, standing', alike⟩ :=
    narrow.exists_standing_at bottom same.body found found'
  have placed : (n, stack) ∈ narrow.placement out := List.mem_append_right _ standing
  have placed' : (n', stack') ∈ wide.placement out' := by
    rw [Policy.placement_congr widens.functionForm]
    exact List.mem_append_right _ standing'
  obtain ⟨scope, stamped, fits⟩ := annotated.stamp_fits placed
  obtain ⟨scope', stamped', fits'⟩ := annotated'.stamp_fits placed'
  exact ⟨scope, scope', stamped, stamped', widens.bound_subset alike fits fits'⟩

open Traversal

private theorem Policy.Widens.covers {t : Traversal σ} {shape : Shape σ ρ} (sound : shape.Sound)
    (annotated : narrow.Annotated fn before out after)
    (annotated' : wide.Annotated fn before' out' after') (topdown : Value)
    (start start' : Store σ) :
    ∃ turns turns', t.Covers shape (rootEntry topdown out.scope out.body start)
      (rootEntry topdown out'.scope out'.body start') after after' turns turns'
      (t.outcome shape (rootEntry topdown out.scope out.body start))
      (t.outcome shape (rootEntry topdown out'.scope out'.body start')) := by
  obtain ⟨turns, course⟩ :=
    t.exists_course sound (rootEntry topdown out.scope out.body start)
  obtain ⟨turns', course'⟩ :=
    t.exists_course sound (rootEntry topdown out'.scope out'.body start')
  have same : out.body.bare = out'.body.bare := annotated.body.trans annotated'.body.symm
  have live : ∀ n ∈ out.body.nodes, n.tag < after.tables.size := fun n member =>
    annotated.live n (List.mem_append_right _ member)
  have live' : ∀ n ∈ out'.body.nodes, n.tag < after'.tables.size := fun n member =>
    annotated'.live n (List.mem_append_right _ member)
  refine ⟨turns, turns', course, course', course.findsStamp sound rfl live,
    course'.findsStamp sound rfl live', ?_, ?_⟩
  · intro turn member turn' member' together finds finds' identity target
    have bare := course.bare_eq course' rfl rfl same member member' together
    have composite' := course'.composite_of_target member' target
    have composite : turn.entry.node.kind.isComposite = true := by
      rwa [Node.kind_eq_of_bare_eq bare]
    obtain ⟨s₁, search⟩ := course.exists_search member composite
    obtain ⟨s₁', search'⟩ := course'.exists_search member' composite'
    obtain ⟨scope, scope', stamped, stamped', less⟩ := widens.stamps_at annotated annotated'
      (course.node_at rfl member) (together ▸ course'.node_at rfl member')
    rw [Entry.scope, finds, stamped, Option.getD_some] at search
    rw [Entry.scope, finds', stamped', Option.getD_some, target] at search'
    exact target_of_contained bare less search search'
  · intro result ended turn' member' uninterrupted
    exact course.exists_turn course' sound rfl rfl same ended member' uninterrupted

end

open Traversal

/-- Under a wider policy a function is stamped with more names. So a run puts the handlers of a
target in front of its chains at calls at which it does so under the narrower policy as well, as far
as the run under the narrower policy comes there. -/
theorem wider_policy_shadows_more {wide narrow : Policy} (widens : wide.Widens narrow)
    (fn : Function) (list : fn.params.isPairlist = true) (s s' : Store σ) :
    (narrow.annotate fn).Ends s fun out after => (wide.annotate fn).Ends s' fun out' after' =>
      (out.SameStructure fn ∧ out'.SameStructure fn ∧
        ∃ (own own' : NameSet × NameSet) (stamps stamps' : List (NameSet × NameSet)),
          out.annotation after = (some own, stamps.map some) ∧
          out'.annotation after' = (some own', stamps'.map some) ∧
          Policy.Contains own' own ∧ List.Forall₂ Policy.Contains stamps' stamps) ∧
      ∀ (t : Traversal σ) (topdown : Value) (start start' : Store σ),
        (∃ turns turns', t.Covers .analysis (rootEntry topdown out.scope out.body start)
          (rootEntry topdown out'.scope out'.body start') after after' turns turns'
          ((t.analyse topdown (out.scope.getD Scope.empty) out.body).run start)
          ((t.analyse topdown (out'.scope.getD Scope.empty) out'.body).run start')) ∧
        ∃ turns turns', t.Covers .transforming (rootEntry topdown out.scope out.body start)
          (rootEntry topdown out'.scope out'.body start') after after' turns turns'
          ((t.transform topdown (out.scope.getD Scope.empty) out.body).run start)
          ((t.transform topdown (out'.scope.getD Scope.empty) out'.body).run start') := by
  refine (narrow.annotate_ends list s).mono fun out after annotated => ?_
  refine (wide.annotate_ends list s').mono fun out' after' annotated' => ⟨?_, ?_⟩
  · refine ⟨annotated.sameStructure, annotated'.sameStructure, _, _, _, _,
      annotated.annotation_eq, annotated'.annotation_eq, ?_, ?_⟩
    · exact widens.setsOf [fn.literal]
    · exact widens.stampsOf fn
  · intro t topdown start start'
    constructor
    · exact widens.covers Shape.analysis_sound annotated annotated' topdown start start'
    · exact widens.covers Shape.transforming_sound annotated annotated' topdown start start'

/-- A function of no parameters that assigns `f` in one argument of a call and calls it in the next,
around a call of `g`. -/
def coveredCall : Function where
  params := .pairlist 0 []
  body := .call 1 (.symbol 2 "h")
    [(none, .call 3 (.symbol 4 "<-") [(none, .symbol 5 "f"), (none, .atomic 6 (.int 1))]),
      (none, .call 7 (.symbol 8 "f") [(none, .call 9 (.symbol 10 "g") [])])]
  env := some [("f", .named "f"), ("g", .named "g")]

/-- The policy under which nothing but a loop binds a variable. -/
def noAssignments : Policy := { assignmentForms := [] }

private theorem widens_noAssignments : ({} : Policy).Widens noAssignments :=
  ⟨rfl, rfl, List.nil_subset _, List.Subset.refl _, fun _ => rfl⟩

/-- Without assignments no name is bound; otherwise `f` is bound everywhere. -/
theorem wider_policy_shadows_more_coveredCall :
    ({} : Policy).Widens noAssignments ∧ coveredCall.params.isPairlist = true ∧
    (noAssignments.annotate coveredCall).Ends (Store.initial ()) fun out after =>
      (({} : Policy).annotate coveredCall).Ends (Store.initial ()) fun out' after' =>
        out.annotation after = (some ([], []), List.replicate 11 (some ([], []))) ∧
        out'.annotation after' =
          (some (["f"], ["f"]), List.replicate 11 (some (["f"], ["f"]))) ∧
        ∀ (t : Traversal Unit) (start start' : Store Unit),
          ∃ turns turns', t.Covers .analysis (rootEntry .none out.scope out.body start)
            (rootEntry .none out'.scope out'.body start') after after' turns turns'
            ((t.analyse .none (out.scope.getD Scope.empty) out.body).run start)
            ((t.analyse .none (out'.scope.getD Scope.empty) out'.body).run start') := by
  obtain ⟨out, after, ran, out', after', ran', -, covers⟩ :=
    wider_policy_shadows_more widens_noAssignments coveredCall rfl (Store.initial ())
      (Store.initial ())
  have unbound : (noAssignments.annotate coveredCall).Ends (Store.initial ()) fun out after =>
      decide (out.annotation after = (some ([], []), List.replicate 11 (some ([], [])))) = true :=
    Action.ends_of_check _ (by decide +kernel)
  have bound : (({} : Policy).annotate coveredCall).Ends (Store.initial ()) fun out after =>
      decide (out.annotation after =
        (some (["f"], ["f"]), List.replicate 11 (some (["f"], ["f"])))) = true :=
    Action.ends_of_check _ (by decide +kernel)
  refine ⟨widens_noAssignments, rfl, out, after, ran, out', after', ran', ?_, ?_, ?_⟩
  · exact of_decide_eq_true (unbound.of_ran ran)
  · exact of_decide_eq_true (bound.of_ran ran')
  · exact fun t start start' => (covers t .none start start').1

/-- An analysis in which calls of `g` report themselves, and a handler of their own guards the way
down into calls of `f`. -/
def guardedBy (guard : Handler Unit) : Pass Unit where
  config := ((Config.standard .analyse).addTopdown (.named "f") guard).addCall (.named "g")
    fun _ _ => pure (.map [(some "seen", .list [.str "g"])])
  flags := ⟨.bool false, .bool false⟩

/-- The reports of the analysis when the function is annotated under a policy, if it ends with a
result. -/
def reports (guard : Handler Unit) (policy : Policy) : Option (List String) :=
  let analysis := (guardedBy guard).analyseFunction coveredCall (some policy)
  match (analysis.run (Store.initial ())).1 with
  | .ok found => some (Policy.texts (((found.lookup (some "seen")).map Value.items).getD []))
  | .error _ => none

/-- Binding `f` sets its handler aside. If this handler keeps a run from the call of `g`, by a skip,
by a fault or by a stamp of its own, the call gets its handlers under the wider policy only. -/
theorem guard_hides_call :
    let skipping : Handler Unit := fun _ ctx => ctx.skip (.map [])
    let failing : Handler Unit := fun _ _ => Action.fail (.raised "stop")
    let binding : Handler Unit := fun node ctx => do
      (node.children.getD 1 node).setMetadata Node.scopeKey (.scope ⟨0, [], ["g"]⟩)
      ctx.callNext node
    ({} : Policy).Widens noAssignments ∧
      (reports skipping {} = some ["g"] ∧ reports skipping noAssignments = some []) ∧
      (reports failing {} = some ["g"] ∧ reports failing noAssignments = none) ∧
      (reports binding {} = some ["g"] ∧ reports binding noAssignments = some []) := by
  intro skipping failing binding
  refine ⟨widens_noAssignments, ⟨?_, ?_⟩, ⟨?_, ?_⟩, ⟨?_, ?_⟩⟩ <;> decide +kernel

end TreePass
