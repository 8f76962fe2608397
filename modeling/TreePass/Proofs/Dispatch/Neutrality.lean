import TreePass.Proofs.Dispatch.Likeness
import TreePass.Proofs.Dispatch.Resolution

/-!
Handlers that only run the rest of their chain. Put among the handlers of a slot such a handler
changes nothing at all. Put among the handlers of a target it makes every call look for its target,
which may record warnings; the outcome stays the same unless what is in force as a scope is none.
-/

set_option autoImplicit false
set_option relaxedAutoImplicit false

namespace TreePass

variable {σ α : Type}

private theorem Config.fullChain_filter {η : Type} (mode : Mode) (installs : List (Install η))
    (slot : Slot) (target : Option Identity) :
    (built mode installs).fullChain slot (target.filter (isTargeted installs)) =
      (built mode installs).fullChain slot target := by
  cases target with
  | none => rfl
  | some identity =>
    cases targeted : isTargeted installs identity with
    | true => simp [Option.filter, targeted]
    | false =>
      have none_given := targetHandlers_eq_nil installs slot targeted
      rw [built_fullChain, built_fullChain, none_given, Option.filter, targeted]
      rfl

namespace Setup

/-- The same traversal with one more handler in the history of its configuration: one that only runs
the rest of its chain, installed before the last `count` others. -/
def padded (setup : Setup σ) (count : Nat) (place : Install Unit) : Setup σ :=
  { setup with
    installs :=
      setup.installs.take count ++ place.map (fun _ => passOn) :: setup.installs.drop count }

variable (setup : Setup σ) (count : Nat) (place : Install Unit)

private theorem any_padded (p : Install (Handler σ) → Bool) :
    (setup.padded count place).installs.any p =
      (p (place.map fun _ => passOn) || setup.installs.any p) := by
  have whole : setup.installs.any p =
      ((setup.installs.take count).any p || (setup.installs.drop count).any p) := by
    rw [← List.any_append, List.take_append_drop]
  rw [whole, padded, List.any_append, List.any_cons, Bool.or_left_comm]

private theorem anyTargeted_padded : anyTargeted (setup.padded count place).installs =
    (place.target?.isSome || anyTargeted setup.installs) := by
  have whole := setup.any_padded count place fun i => i.target?.isSome
  rwa [Install.target?_map] at whole

private theorem isTargeted_padded (identity : Identity) :
    isTargeted (setup.padded count place).installs identity =
      (place.target? == some identity || isTargeted setup.installs identity) := by
  have whole := setup.any_padded count place fun i => i.target? == some identity
  rwa [Install.target?_map] at whole

private theorem handlers_padded (find : Install (Handler σ) → Option (Handler σ))
    (only : ∀ h ∈ find (place.map fun _ => passOn), h = passOn)
    {chain chain' : List (Link (Handler σ))} (rest : Padded chain chain') :
    Padded ((setup.installs.filterMap find).map .installed ++ chain)
      (((setup.padded count place).installs.filterMap find).map .installed ++ chain') := by
  have whole : setup.installs.filterMap find =
      (setup.installs.take count).filterMap find ++ (setup.installs.drop count).filterMap find := by
    rw [← List.filterMap_append, List.take_append_drop]
  rw [whole, padded, List.filterMap_append, List.map_append, List.map_append, List.append_assoc,
    List.append_assoc]
  refine Padded.append ?_ _
  cases found : find (place.map fun _ => passOn) with
  | none =>
    rw [List.filterMap_cons_none found]
    exact rest.append _
  | some h =>
    obtain rfl := only h found
    rw [List.filterMap_cons_some found]
    exact .pass (rest.append _)

private theorem fullChain_padded (slot : Slot) (target : Option Identity) :
    Padded (setup.traversal.config.fullChain slot target)
      ((setup.padded count place).traversal.config.fullChain slot target) := by
  have ofSlot : ∀ h ∈ (place.map fun _ => (passOn : Handler σ)).forSlot? slot, h = passOn := by
    intro h found
    rw [Install.forSlot?_map] at found
    obtain ⟨_, _, rfl⟩ := Option.map_eq_some_iff.mp found
    rfl
  have generic : Padded (genericChain setup.mode setup.installs slot)
      (genericChain setup.mode (setup.padded count place).installs slot) :=
    setup.handlers_padded count place (Install.forSlot? slot) ofSlot (.last _)
  simp only [traversal, Config.built_fullChain]
  cases target with
  | none => exact generic
  | some identity =>
    refine setup.handlers_padded count place (Install.forTarget? slot identity) ?_ generic
    intro h found
    rw [Install.forTarget?_map] at found
    obtain ⟨_, _, rfl⟩ := Option.map_eq_some_iff.mp found
    rfl

private theorem mode_padded : (setup.padded count place).traversal.mode = setup.traversal.mode := by
  simp only [Traversal.mode, traversal, Config.built_mode]
  rfl

private theorem context_padded : (setup.padded count place).traversal.context =
    setup.traversal.context := by
  funext topdown scope bottomup visit
  simp only [Traversal.context, mode_padded]
  rfl

/-- Looking for the target of a node stops where a variable is called, some object has handlers of
its own and what is in force as a scope is none. -/
def Stops (scope : Value) (node : Expr) : Prop :=
  anyTargeted setup.installs = true ∧
    (∃ tag tag' name args, node = .call tag (.symbol tag' name) args) ∧ ∀ x, scope ≠ .scope x

/-- The added handler lets the search stop nowhere else, if some object had handlers before or only
scopes are in force. -/
theorem stops_padded_iff {l : Likeness} (known : l = .tidy ∨ anyTargeted setup.installs = true)
    {scope : Value} (admitted : l.Admits scope) (node : Expr) :
    (setup.padded count place).Stops scope node ↔ setup.Stops scope node := by
  constructor
  · rintro ⟨-, called, foreign⟩
    rcases known with tidy | targeted
    · obtain ⟨x, same⟩ := admitted tidy
      exact absurd same (foreign x)
    · exact ⟨targeted, called, foreign⟩
  · rintro ⟨targeted, called, foreign⟩
    exact ⟨by rw [anyTargeted_padded, targeted, Bool.or_true], called, foreign⟩

/-- The search for the target of a node found what the call is aimed at, if that has handlers of its
own, and recorded nothing but warnings and notes. -/
def Finds (scope : Value) (node : Expr) (s : Store σ)
    (ran : Except Fault (Option Identity) × Store σ) : Prop :=
  ∃ warnings notes, ran =
    (.ok ((setup.aim scope node).filter (isTargeted setup.installs)),
      { s with warnings := warnings, notes := notes })

variable {setup}

private theorem run_targetOf_of_stops {scope : Value} {node : Expr} (stops : setup.Stops scope node)
    (s : Store σ) :
    (setup.traversal.targetOf node scope).run s = (.error .missingMember, s) := by
  obtain ⟨targeted, ⟨tag, tag', name, args, rfl⟩, foreign⟩ := stops
  have unknown : scope.isBound name = .error .missingMember := by
    cases scope with
    | scope x => exact absurd rfl (foreign x)
    | _ => rfl
  rw [← hasTargets_eq] at targeted
  simp only [Traversal.targetOf, Traversal.resolve, targeted, ↓reduceIte, unknown]
  rfl

private theorem finds_of_dispatch {scope : Value} {node : Expr} {identity : Identity}
    (aimed : setup.aim scope node = some identity) (s : Store σ) :
    setup.Finds scope node s ((setup.traversal.dispatch identity).run s) := by
  obtain ⟨notes, ran⟩ := setup.traversal.run_dispatch identity s
  rw [isRegistered_eq] at ran
  exact ⟨s.warnings, notes, by rw [ran, aimed]; rfl⟩

private theorem finds_of_scope (targets : setup.traversal.config.hasTargets = true) (x : Scope)
    (tag tag' : Tag) (name : String) (args : List (Option String × Expr)) (s : Store σ) :
    setup.Finds (.scope x) (.call tag (.symbol tag' name) args) s
      ((setup.traversal.resolve (.symbol tag' name) (.scope x)).run s) := by
  cases bound : x.isBound name with
  | true =>
    have shown : (Value.scope x).isBound name = .ok true := congrArg Except.ok bound
    have aimless : setup.aim (.scope x) (.call tag (.symbol tag' name) args) = none := by
      simp [aim, Value.binds, bound]
    obtain ⟨notes, ran⟩ := setup.traversal.run_resolve_of_bound targets tag' shown s
    exact ⟨_, notes, by rw [aimless]; exact ran⟩
  | false =>
    have free : (Value.scope x).isBound name = .ok false := congrArg Except.ok bound
    have aimed : setup.aim (.scope x) (.call tag (.symbol tag' name) args) =
        setup.traversal.lookup name := by
      simp [aim, Value.binds, bound]
    cases found : setup.traversal.lookup name with
    | none =>
      obtain ⟨notes, ran⟩ := setup.traversal.run_resolve_of_unknown targets tag' free found s
      exact ⟨_, notes, by rw [aimed, found]; exact ran⟩
    | some identity =>
      rw [setup.traversal.resolve_of_known targets tag' free found s]
      exact finds_of_dispatch (aimed.trans found) s

private theorem finds_of_not_stops {scope : Value} {node : Expr} (goes : ¬ setup.Stops scope node)
    (s : Store σ) :
    setup.Finds scope node s ((setup.traversal.targetOf node scope).run s) := by
  cases targeted : anyTargeted setup.installs with
  | false =>
    have absent := (resolved_of_no_targets targeted scope node s).target
    have skipped : setup.traversal.targetOf node scope = pure none := by
      cases node with
      | call tag callee args =>
        have idle := setup.hasTargets_eq.trans targeted
        exact setup.traversal.resolve_of_no_targets idle callee scope
      | atomic | symbol | primitive | pairlist => rfl
    exact ⟨s.warnings, s.notes, by rw [skipped, ← absent]; rfl⟩
  | true =>
    have targets : setup.traversal.config.hasTargets = true := setup.hasTargets_eq.trans targeted
    cases node with
    | atomic | symbol | primitive | pairlist => exact ⟨s.warnings, s.notes, rfl⟩
    | call tag callee args =>
      cases callee with
      | atomic | pairlist | call =>
        refine ⟨s.warnings, s.notes, ?_⟩
        simp only [Traversal.targetOf, Traversal.resolve, targets, ↓reduceIte]
        rfl
      | primitive tag' ref =>
        simp only [Traversal.targetOf, Traversal.resolve, targets, ↓reduceIte]
        exact finds_of_dispatch rfl s
      | symbol tag' name =>
        have isScope : ∃ x, scope = .scope x := by
          by_contra none_such
          exact goes ⟨targeted, ⟨tag, tag', name, args, rfl⟩, fun x same => none_such ⟨x, same⟩⟩
        obtain ⟨x, rfl⟩ := isScope
        exact finds_of_scope targets x tag tag' name args s

variable (setup)

private theorem padded_agrees {l : Likeness} (different : l ≠ .exact)
    (known : l = .tidy ∨ anyTargeted setup.installs = true)
    (discreet : ∀ i ∈ setup.installs, i.added.Discreet l) :
    setup.traversal.Agrees l (setup.padded count place).traversal where
  mode := setup.mode_padded count place
  context := setup.context_padded count place
  discreet := setup.forall_link discreet Standard.run_discreet
  leaf slot := setup.fullChain_padded count place slot none
  target node scope admitted := by
    intro s s' alike
    have stops := setup.stops_padded_iff count place known admitted node
    by_cases stopping : setup.Stops scope node
    · refine ⟨s, s', alike, .inr ⟨.missingMember, run_targetOf_of_stops stopping s, ?_⟩⟩
      exact run_targetOf_of_stops (stops.mpr stopping) s'
    · obtain ⟨warnings, notes, ran⟩ := finds_of_not_stops stopping s
      obtain ⟨warnings', notes', ran'⟩ :=
        finds_of_not_stops (fun h => stopping (stops.mp h)) s'
      have recorded := alike.recorded different warnings warnings' notes notes'
      refine ⟨_, _, recorded, .inl ⟨_, _, ran, ran', fun slot => ?_⟩⟩
      simp only [traversal, Config.fullChain_filter]
      exact setup.fullChain_padded count place slot _

private theorem targetOf_padded (generic : place.target? = none) :
    (setup.padded count place).traversal.targetOf = setup.traversal.targetOf := by
  have registered : (setup.padded count place).traversal.config.isRegistered =
      setup.traversal.config.isRegistered := by
    funext identity
    rw [isRegistered_eq, isRegistered_eq, isTargeted_padded, generic]
    rfl
  have targets : (setup.padded count place).traversal.config.hasTargets =
      setup.traversal.config.hasTargets := by
    rw [hasTargets_eq, hasTargets_eq, anyTargeted_padded, generic]
    rfl
  funext node scope
  cases node with
  | atomic | symbol | primitive | pairlist => rfl
  | call tag callee args =>
    simp only [Traversal.targetOf, Traversal.resolve, Traversal.dispatch, targets, registered]
    rfl

private theorem padded_agrees_exactly (generic : place.target? = none) :
    setup.traversal.Agrees .exact (setup.padded count place).traversal where
  mode := setup.mode_padded count place
  context := setup.context_padded count place
  discreet _ _ link _ := Handler.discreet_of_exact link.run
  leaf slot := setup.fullChain_padded count place slot none
  target node scope _ := by
    rw [setup.targetOf_padded count place generic]
    refine (Action.matches_exact_refl _).mono fun found found' same slot => ?_
    rw [← same]
    exact setup.fullChain_padded count place slot found

end Setup

/-- Both runs end with the same result or fault, and with stores that differ in the record of
warnings and notes at most. -/
def SameOutcome (first second : Except Fault α × Store σ) : Prop :=
  first.1 = second.1 ∧ first.2.hushed = second.2.hushed

private theorem Action.Matches.sameOutcome {l : Likeness} {first second : Action σ α}
    (ends : Matches l Eq first second) {s : Store σ} (alike : Store.Alike l s s) :
    SameOutcome (first.run s) (second.run s) := by
  obtain ⟨t, t', alike', ended⟩ := ends s s alike
  rcases ended with ⟨a, b, ran, ran', rfl⟩ | ⟨fault, ran, ran'⟩
  · rw [ran, ran']
    exact ⟨rfl, alike'.hushed⟩
  · rw [ran, ran']
    exact ⟨rfl, alike'.hushed⟩

/-- A handler that only runs the rest of its chain is neutral wherever in the history of a
configuration it is installed. At a slot it changes nothing, whatever the other handlers do. For a
target it changes warnings and notes at most, as long as the other handlers do not look at these and
either another handler for a target is there, or scopes are all that nodes carry as scopes. -/
theorem pass_through_is_neutral (setup : Setup σ) (count : Nat) (place : Install Unit)
    (topdown : Value) (scope : Scope) (expr : Expr) (s : Store σ) :
    (place.target? = none →
      ((setup.padded count place).traversal.analyse topdown scope expr).run s =
          (setup.traversal.analyse topdown scope expr).run s ∧
        ((setup.padded count place).traversal.transform topdown scope expr).run s =
          (setup.traversal.transform topdown scope expr).run s) ∧
    ((anyTargeted setup.installs = true ∧ ∀ i ∈ setup.installs, i.added.Discreet .loose) ∨
        (s.Tidy ∧ ∀ i ∈ setup.installs, i.added.Discreet .tidy) →
      SameOutcome ((setup.traversal.analyse topdown scope expr).run s)
          (((setup.padded count place).traversal.analyse topdown scope expr).run s) ∧
        SameOutcome ((setup.traversal.transform topdown scope expr).run s)
          (((setup.padded count place).traversal.transform topdown scope expr).run s)) := by
  refine ⟨fun generic => ?_, fun given => ?_⟩
  · have agrees := setup.padded_agrees_exactly count place generic
    have analysed := (agrees.analyse topdown scope expr).eq_of_exact
    have transformed := (agrees.transform topdown scope expr).eq_of_exact
    exact ⟨by rw [analysed], by rw [transformed]⟩
  · -- Tidiness is carried through the run only where it is what keeps the search for targets going.
    have likeness : ∃ l, Store.Alike l s s ∧
        setup.traversal.Agrees l (setup.padded count place).traversal := by
      rcases given with ⟨targeted, discreet⟩ | ⟨tidy, discreet⟩
      · refine ⟨.loose, .refl (by simp), ?_⟩
        exact setup.padded_agrees count place (by simp) (.inr targeted) discreet
      · refine ⟨.tidy, .refl fun _ => tidy, ?_⟩
        exact setup.padded_agrees count place (by simp) (.inl rfl) discreet
    obtain ⟨l, alike, agrees⟩ := likeness
    exact ⟨(agrees.analyse topdown scope expr).sameOutcome alike,
      (agrees.transform topdown scope expr).sameOutcome alike⟩

def runTwice : Handler σ := fun node ctx => do
  let _ ← ctx.callNext node
  ctx.callNext node

def skipBare : Handler σ := fun node ctx =>
  match node.args? with
  | some [] => ctx.skip (.map [(some "left", .list [.bool true])])
  | _ => ctx.callNext node

private theorem runTwice_discreet (l : Likeness) : Handler.Discreet l (runTwice : Handler σ) :=
  fun node _ _ alike => (alike.callNext node).bind_eq fun _ => alike.callNext node

private theorem skipBare_discreet (l : Likeness) : Handler.Discreet l (skipBare : Handler σ) := by
  intro node ctx ctx' alike
  unfold skipBare
  split
  · exact alike.skip _
  · exact alike.callNext node

/-- An analysis whose handlers run the rest twice or not at all. -/
def busySetup : Setup Unit where
  mode := .analyse
  installs := [.handler .call runTwice, .handler .topdown skipBare]
  flags := {}
  env := some [("f", .named "f")]
  params := []

private theorem Store.tidy_of_empty {s : Store σ} (empty : ∀ table ∈ s.tables, table = []) :
    s.Tidy := by
  intro tag value found
  rw [Store.table] at found
  cases stored : s.tables[tag]? with
  | none =>
    rw [stored] at found
    cases found
  | some table =>
    rw [stored, empty table (Array.mem_of_getElem? stored)] at found
    cases found

open Setup (threeCalls sixNodes)

/-- A handler for `f`, put between the two others, adds warnings about `k` and `u`. -/
theorem pass_through_is_neutral_threeCalls :
    sixNodes.Tidy ∧ (∀ i ∈ busySetup.installs, i.added.Discreet .tidy) ∧
    (∃ after, (busySetup.traversal.analyse .none Scope.empty threeCalls).run sixNodes =
      (.ok [(some "left", .list [.bool true, .bool true])], after) ∧ after.warnings = #[]) ∧
    SameOutcome ((busySetup.traversal.analyse .none Scope.empty threeCalls).run sixNodes)
      (((busySetup.padded 1 (.call (.named "f") ())).traversal.analyse .none Scope.empty
        threeCalls).run sixNodes) ∧
    (((busySetup.padded 1 (.call (.named "f") ())).traversal.analyse .none Scope.empty
      threeCalls).run sixNodes).2.warnings = #[.unknownCallee "k", .unknownCallee "u"] ∧
    ((busySetup.padded 2 (.handler .topdown ())).traversal.analyse .none Scope.empty
        threeCalls).run sixNodes =
      (busySetup.traversal.analyse .none Scope.empty threeCalls).run sixNodes := by
  have tidy : sixNodes.Tidy := Store.tidy_of_empty (by simp [sixNodes])
  have discreet : ∀ i ∈ busySetup.installs, i.added.Discreet .tidy := by
    intro i member
    rcases List.mem_pair.mp member with rfl | rfl
    · exact runTwice_discreet .tidy
    · exact skipBare_discreet .tidy
  have forTarget := pass_through_is_neutral busySetup 1 (.call (.named "f") ()) .none Scope.empty
    threeCalls sixNodes
  have forSlot := pass_through_is_neutral busySetup 2 (.handler .topdown ()) .none Scope.empty
    threeCalls sixNodes
  refine ⟨tidy, discreet, ⟨_, rfl, rfl⟩, ?_, rfl, ?_⟩
  · exact (forTarget.2 (.inr ⟨tidy, discreet⟩)).1
  · exact (forSlot.1 rfl).1

/-- A call whose first node carries a number as its scope. -/
def foreignScope : Store Unit :=
  { Store.initial () with tables := #[[(Node.scopeKey, .int 3)], []] }

/-- The first handler for a target, though it only runs the rest of its chain, turns the result of
an analysis without handlers into a fault. -/
theorem first_target_meets_foreign_scope :
    let plain : Setup Unit := ⟨.analyse, [], {}, none, []⟩
    let call : Expr := .call 0 (.symbol 1 "f") []
    ((plain.traversal.analyse .none Scope.empty call).run foreignScope).1 = .ok [] ∧
      (((plain.padded 0 (.call (.named "g") ())).traversal.analyse .none Scope.empty
        call).run foreignScope).1 = .error .missingMember :=
  ⟨rfl, rfl⟩

end TreePass
