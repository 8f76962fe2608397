import TreePass.Proofs.Turns.Order

/-!
Pure handlers. They look at nothing but their node, their circumstances and the metadata that nodes
had in a store from the beginning, and change none of it. What they and the analyses with them
answer is then the same in all later stores; only the numbers of the rights to skip may differ.
-/

set_option autoImplicit false
set_option relaxedAutoImplicit false

namespace TreePass

variable {σ α β : Type}

abbrev Store.Keeps (before after : Store σ) : Prop := Store.Spares (fun _ => True) before after

theorem Store.Keeps.stamp?_eq {s later : Store σ} (keeps : s.Keeps later) {node : Expr}
    (old : node.tag < s.tables.size) : later.stamp? node = s.stamp? node := by
  have same := keeps.table node.tag old trivial
  rw [stamp?, stamp?, same]

theorem Store.Keeps.of_tables_eq {s s₁ s₂ : Store σ} (keeps : s.Keeps s₁)
    (same : s₂.tables = s₁.tables) : s.Keeps s₂ :=
  (spares_bound _).trans keeps (spares_of_tables_eq same)

/-- Two outcomes are the same answer: the same result, a skip of the own visit with the same value,
or the same fault. Results are good, and the values of skips are some that handlers may meet. -/
inductive SameAnswer (met : Value → Prop) (good : α → Prop) (visit visit' : Option Nat) :
    Except Fault α → Except Fault α → Prop
  | result {a : α} (fine : good a) : SameAnswer met good visit visit' (.ok a) (.ok a)
  | skip {v v' : Nat} {value : Value} (own : visit = some v) (own' : visit' = some v')
      (fine : met value) :
      SameAnswer met good visit visit' (.error (.skip v value)) (.error (.skip v' value))
  | fault {fault : Fault} (foreign : ∀ v value, fault ≠ .skip v value) :
      SameAnswer met good visit visit' (.error fault) (.error fault)

theorem SameAnswer.symm {met : Value → Prop} {good : α → Prop} {visit visit' : Option Nat}
    {first second : Except Fault α} (same : SameAnswer met good visit visit' first second) :
    SameAnswer met good visit' visit second first := by
  cases same with
  | result fine => exact .result fine
  | skip own own' fine => exact .skip own' own fine
  | fault foreign => exact .fault foreign

theorem SameAnswer.of_ok {met : Value → Prop} {good : α → Prop} {visit visit' : Option Nat} {a : α}
    {second : Except Fault α} (same : SameAnswer met good visit visit' (.ok a) second) :
    second = .ok a ∧ good a := by
  cases same with
  | result fine => exact ⟨rfl, fine⟩

/-- Two actions give the same answer in all stores that keep the metadata of a first one, and leave
such stores. -/
def Action.Alike (s : Store σ) (met : Value → Prop) (good : α → Prop) (visit visit' : Option Nat)
    (first second : Action σ α) : Prop :=
  ∀ s₁ s₂, s.Keeps s₁ → s.Keeps s₂ →
    SameAnswer met good visit visit' (first.run s₁).1 (second.run s₂).1 ∧
      s.Keeps (first.run s₁).2 ∧ s.Keeps (second.run s₂).2

/-- The same circumstances, but for the number of the right to skip and the rest of the chain. -/
structure Context.SameFacts (ctx ctx' : Context σ) : Prop where
  given : ctx' = { ctx with next := ctx'.next, visit := ctx'.visit }
  rights : ctx'.visit.isSome = ctx.visit.isSome

/-- The values that handlers are told are some that they may meet. -/
structure Context.Met (met : Value → Prop) (ctx : Context σ) : Prop where
  topdown : met ctx.topdown
  scope : met ctx.scope
  bottomup : ∀ results ∈ ctx.bottomup, ∀ value ∈ results, met value
  params : ∀ p ∈ ctx.params, met p.2

/-- The rest of the chain answers alike about the nodes that handlers may meet. -/
def Context.SameNext (s : Store σ) (met : Value → Prop) (ctx ctx' : Context σ) : Prop :=
  Option.Rel (fun f g => ∀ node, met (.node node) →
    Action.Alike s met met ctx.visit ctx'.visit (f node) (g node)) ctx.next ctx'.next

/-- A handler is a function of its node and its circumstances: about what it may meet it gives the
same answer whenever it is asked. -/
def Handler.Pure (s : Store σ) (met : Value → Prop) (handler : Handler σ) : Prop :=
  ∀ node ctx ctx', met (.node node) → ctx.Met met → ctx.SameFacts ctx' → ctx.SameNext s met ctx' →
    Action.Alike s met met ctx.visit ctx'.visit (handler node ctx) (handler node ctx')

variable {s : Store σ} {met : Value → Prop}

namespace Action

variable {good : α → Prop} {good' : β → Prop} {visit visit' : Option Nat}

theorem alike_pure {a : α} (fine : good a) :
    Alike s met good visit visit' (pure a : Action σ α) (pure a) :=
  fun _ _ kept kept' => ⟨.result fine, kept, kept'⟩

private theorem alike_fail {fault : Fault} (foreign : ∀ v value, fault ≠ .skip v value) :
    Alike s met good visit visit' (fail fault : Action σ α) (fail fault) :=
  fun _ _ kept kept' => ⟨.fault foreign, kept, kept'⟩

private theorem alike_note (entry : Note) :
    Alike s met (fun _ => True) visit visit' (note entry : Action σ Unit) (note entry) :=
  fun _ _ kept kept' => ⟨.result trivial, kept.of_tables_eq rfl, kept'.of_tables_eq rfl⟩

theorem Alike.bind {first second : Action σ α} {next next' : α → Action σ β}
    (alike : Alike s met good visit visit' first second)
    (rest : ∀ a, good a → Alike s met good' visit visit' (next a) (next' a)) :
    Alike s met good' visit visit' (first >>= next) (second >>= next') := by
  intro s₁ s₂ kept kept'
  obtain ⟨same, later, later'⟩ := alike s₁ s₂ kept kept'
  cases ran : first.run s₁ with
  | mk outcome s₃ =>
    cases ran' : second.run s₂ with
    | mk outcome' s₄ =>
      rw [ran] at same later
      rw [ran'] at same later'
      cases same with
      | result fine =>
        rw [run_bind_of_ok ran, run_bind_of_ok ran']
        exact rest _ fine s₃ s₄ later later'
      | skip own own' fine =>
        rw [run_bind_of_error ran, run_bind_of_error ran']
        exact ⟨.skip own own' fine, later, later'⟩
      | fault foreign =>
        rw [run_bind_of_error ran, run_bind_of_error ran']
        exact ⟨.fault foreign, later, later'⟩

end Action

theorem Context.SameFacts.symm {ctx ctx' : Context σ} (same : ctx.SameFacts ctx') :
    ctx'.SameFacts ctx := by
  obtain ⟨given, rights⟩ := same
  refine ⟨?_, rights.symm⟩
  rw [given]

private theorem contribution_error {result : Value} {fault : Fault}
    (failed : contribution result = .error fault) : fault = .missingMember := by
  unfold contribution at failed
  split at failed
  · cases result with
    | map entries => cases failed
    | _ => exact (Except.error.inj failed).symm
  · cases failed

private theorem mapM_contribution_error {results : List Value} {fault : Fault}
    (failed : results.mapM contribution = .error fault) : fault = .missingMember := by
  induction results generalizing fault with
  | nil => cases failed
  | cons result rest ih =>
    rw [List.mapM_cons] at failed
    cases first : contribution result with
    | error f =>
      rw [first] at failed
      obtain rfl := Except.error.inj failed
      exact contribution_error first
    | ok entries =>
      rw [first] at failed
      cases later : rest.mapM contribution with
      | error f =>
        rw [later] at failed
        obtain rfl := Except.error.inj failed
        exact ih later
      | ok all =>
        rw [later] at failed
        cases failed

private theorem mergeResults_error {results : List Value} {fault : Fault}
    (failed : mergeResults results = .error fault) : fault = .missingMember := by
  unfold mergeResults at failed
  cases mapped : results.mapM contribution with
  | error f =>
    rw [mapped] at failed
    obtain rfl := Except.error.inj failed
    exact mapM_contribution_error mapped
  | ok all =>
    rw [mapped] at failed
    cases failed

theorem Standard.run_pure (empty : met (.map []))
    (merges : ∀ results merged, (∀ value ∈ results, met value) →
      mergeResults results = .ok merged → met (.map merged.entries)) (handler : Standard) :
    Handler.Pure s met (handler.run : Handler σ) := by
  intro node ctx ctx' known told facts _
  have topdown : ctx'.topdown = ctx.topdown := by rw [facts.given]
  have bottomup : ctx'.bottomup = ctx.bottomup := by rw [facts.given]
  cases handler with
  | keepNode => exact Action.alike_pure known
  | emptyAnalysis => exact Action.alike_pure empty
  | passTopdown =>
    simp only [run, topdown]
    exact Action.alike_pure told.topdown
  | mergeAnalysis =>
    simp only [run, bottomup]
    have below : ∀ value ∈ ctx.bottomup.getD [], met value := by
      cases given : ctx.bottomup with
      | none => simp
      | some results => exact told.bottomup results given
    cases merged : mergeResults (ctx.bottomup.getD []) with
    | ok entries => exact Action.alike_pure (merges _ _ below merged)
    | error fault =>
      rw [mergeResults_error merged]
      exact Action.alike_fail (by simp)

namespace Traversal

private theorem invoke_alike {chain : List (Link (Handler σ))}
    (links : ∀ link ∈ chain, Handler.Pure s met link.run) (ctx ctx' : Context σ)
    (told : ctx.Met met) (facts : ctx.SameFacts ctx') {node : Expr} (known : met (.node node)) :
    Action.Alike s met met ctx.visit ctx'.visit (invoke ctx chain node)
      (invoke ctx' chain node) := by
  have onward (next next' : Option (Expr → Action σ Value)) :
      Context.SameFacts { ctx with next } { ctx' with next := next' } :=
    ⟨by rw [facts.given], facts.rights⟩
  have still (next : Option (Expr → Action σ Value)) : Context.Met met { ctx with next } :=
    ⟨told.topdown, told.scope, told.bottomup, told.params⟩
  induction chain generalizing node with
  | nil => exact Action.alike_fail (by simp)
  | cons link rest ih =>
    have own := links link List.mem_cons_self
    have below (n : Expr) := @ih (fun l member => links l (List.mem_cons_of_mem _ member)) n
    cases rest with
    | nil => exact own node _ _ known (still none) (onward none none) .none
    | cons second rest => exact own node _ _ known (still _) (onward _ _) (.some below)

variable {t : Traversal σ}

private theorem targetOf_alike (node : Expr) (scope : Value) :
    Action.Alike s met (fun _ => True) none none (t.targetOf node scope)
      (t.targetOf node scope) := by
  intro s₁ s₂ kept kept'
  rcases t.targetOf_cases node scope with ⟨target, answered⟩ | ⟨failed, -⟩
  · obtain ⟨_, _, ran⟩ := answered s₁
    obtain ⟨_, _, ran'⟩ := answered s₂
    rw [ran, ran']
    exact ⟨.result trivial, kept.of_tables_eq rfl, kept'.of_tables_eq rfl⟩
  · rw [failed s₁, failed s₂]
    exact ⟨.fault (by simp), kept, kept'⟩

theorem ComesTo.trans {root node below : Expr} (comes : ComesTo root node)
    (further : ComesTo node below) : ComesTo root below := by
  induction comes with
  | self => exact further
  | under above _ ih => exact .under above (ih further)

/-- The trees whose nodes handlers may meet, with the stamps of these nodes. -/
structure Meets (s : Store σ) (met : Value → Prop) (root : Expr) : Prop where
  known : ∀ n, ComesTo root n → n.tag < s.tables.size
  nodes : ∀ n, ComesTo root n → met (.node n)
  stamps : ∀ n, ComesTo root n → ∀ stamp, s.stamp? n = some stamp → met stamp

theorem Meets.of_comes {root node : Expr} (meets : Meets s met root) (comes : ComesTo root node) :
    Meets s met node where
  known n further := meets.known n (comes.trans further)
  nodes n further := meets.nodes n (comes.trans further)
  stamps n further := meets.stamps n (comes.trans further)

/-- The handlers at some slots are pure. -/
def PureAt (t : Traversal σ) (s : Store σ) (met : Value → Prop) (slots : Slot → Prop) : Prop :=
  ∀ slot, slots slot → ∀ target, ∀ link ∈ t.config.fullChain slot target,
    Handler.Pure s met link.run

theorem PureAt.chain_alike {slots : Slot → Prop} (handlers : t.PureAt s met slots)
    (params : ∀ p ∈ t.params, met p.2) (slot : Slot) (listed : slots slot)
    (target : Option Identity) {topdown scope : Value} (passed : met topdown)
    (stamped : met scope) (bottomup : Option (List Value))
    (results : ∀ values ∈ bottomup, ∀ value ∈ values, met value) (visit visit' : Option Nat)
    (rights : visit'.isSome = visit.isSome) {node : Expr} (known : met (.node node)) :
    Action.Alike s met met visit visit'
      (invoke (t.context topdown scope bottomup visit) (t.config.fullChain slot target) node)
      (invoke (t.context topdown scope bottomup visit') (t.config.fullChain slot target) node) :=
  invoke_alike (handlers slot listed target) (t.context topdown scope bottomup visit)
    (t.context topdown scope bottomup visit') ⟨passed, stamped, results, params⟩ ⟨rfl, rights⟩
    known

private theorem PureAt.descend_alike {slots : Slot → Prop} (handlers : t.PureAt s met slots)
    (params : ∀ p ∈ t.params, met p.2) (listed : slots .topdown) (target : Option Identity)
    {topdown scope : Value} (passed : met topdown) (stamped : met scope) {node : Expr}
    (known : met (.node node)) :
    Action.Alike s met
      (fun outcome => match outcome with | .done value => met value | .skipped value => met value)
      none none (t.descend target topdown scope node) (t.descend target topdown scope node) := by
  intro s₁ s₂ kept kept'
  have descent (s : Store σ) : (t.descend target topdown scope node).run s =
      (Action.catchSkip s.visits (invoke (t.context topdown scope none (some s.visits))
        (t.config.fullChain .topdown target) node)).run { s with visits := s.visits + 1 } := by
    rw [descend, Action.run_bind_of_ok (Action.run_newVisit s)]
  have chain := handlers.chain_alike params .topdown listed target passed stamped none (by simp)
    (some s₁.visits) (some s₂.visits) rfl known
  obtain ⟨same, later, later'⟩ := chain { s₁ with visits := s₁.visits + 1 }
    { s₂ with visits := s₂.visits + 1 } (kept.of_tables_eq rfl) (kept'.of_tables_eq rfl)
  rw [descent, descent]
  revert same later later'
  generalize ran : (invoke _ _ _).run { s₁ with visits := s₁.visits + 1 } = first
  generalize ran' : (invoke _ _ _).run { s₂ with visits := s₂.visits + 1 } = second
  obtain ⟨outcome, s₃⟩ := first
  obtain ⟨outcome', s₄⟩ := second
  intro same later later'
  cases same with
  | result fine =>
    rw [Action.run_catchSkip_of_ok ran, Action.run_catchSkip_of_ok ran']
    exact ⟨.result fine, later, later'⟩
  | skip own own' fine =>
    obtain rfl := Option.some.inj own
    obtain rfl := Option.some.inj own'
    rw [Action.run_catchSkip_of_skip ran, Action.run_catchSkip_of_skip ran']
    exact ⟨.result fine, later, later'⟩
  | fault foreign =>
    rw [Action.run_catchSkip_of_fault ran (foreign _),
      Action.run_catchSkip_of_fault ran' (foreign _)]
    exact ⟨.fault foreign, later, later'⟩

private theorem finish_alike (slot : Slot) (kind : Kind) (made : Option Expr) {value : Value}
    (known : met value) :
    Action.Alike s met (fun entries => met (.map entries)) none none
      (t.finish .analysis slot kind made value) (t.finish .analysis slot kind made value) := by
  cases value with
  | map entries => exact Action.alike_pure known
  | _ => exact Action.alike_fail (by simp)

private theorem scopeAt_alike {node : Expr} (meets : Meets s met node) {inherited : Value}
    (stamped : met inherited) :
    Action.Alike s met met none none (scopeAt node inherited : Action σ Value)
      (scopeAt node inherited) := by
  intro s₁ s₂ kept kept'
  have old := meets.known node .self
  rw [run_scopeAt, run_scopeAt, kept.stamp?_eq old, kept'.stamp?_eq old]
  refine ⟨.result ?_, kept, kept'⟩
  cases stamp : s.stamp? node with
  | none => exact stamped
  | some found => exact meets.stamps node .self found stamp

/-- An analysis gives the same answer about a node whenever it is asked. -/
def VisitsAlike (t : Traversal σ) (s : Store σ) (met : Value → Prop) (node : Expr) : Prop :=
  ∀ topdown inherited, met topdown → met inherited →
    Action.Alike s met (fun entries => met (.map entries)) none none
      (t.visit .analysis topdown inherited node) (t.visit .analysis topdown inherited node)

private theorem visitAll_alike {nodes : List Expr} (each : ∀ n ∈ nodes, t.VisitsAlike s met n)
    {topdown inherited : Value} (passed : met topdown) (stamped : met inherited) :
    Action.Alike s met (fun results => ∀ entries ∈ results, met (.map entries)) none none
      (t.visitAll .analysis topdown inherited nodes)
      (t.visitAll .analysis topdown inherited nodes) := by
  induction nodes with
  | nil => exact Action.alike_pure (by simp)
  | cons node rest ih =>
    have first := each node List.mem_cons_self topdown inherited passed stamped
    have later := ih fun n member => each n (List.mem_cons_of_mem _ member)
    refine first.bind fun entries fine => later.bind fun results others => ?_
    refine Action.alike_pure fun found member => ?_
    rcases List.mem_cons.mp member with rfl | member
    · exact fine
    · exact others found member

section

variable (handlers : t.PureAt s met fun _ => True) (params : ∀ p ∈ t.params, met p.2)

include handlers params

private theorem invoke_finish_alike (slot : Slot) (kind : Kind) (target : Option Identity)
    {topdown scope : Value} (passed : met topdown) (stamped : met scope) (results : List Entries)
    (collected : ∀ entries ∈ results, met (.map entries)) {node : Expr}
    (known : met (.node node)) :
    Action.Alike s met (fun entries => met (.map entries)) none none
      (invoke (t.context topdown scope (Shape.analysis.bottomup (σ := σ) results) none)
        (t.config.fullChain slot target) node >>= t.finish .analysis slot kind (some node))
      (invoke (t.context topdown scope (Shape.analysis.bottomup (σ := σ) results) none)
        (t.config.fullChain slot target) node >>= t.finish .analysis slot kind (some node)) := by
  have values : ∀ values ∈ Shape.analysis.bottomup (σ := σ) results,
      ∀ value ∈ values, met value := by
    intro values given value member
    obtain rfl := Option.some.inj given
    obtain ⟨entries, listed, rfl⟩ := List.mem_map.mp member
    exact collected entries listed
  have chain := handlers.chain_alike params slot trivial target passed stamped _ values none none
    rfl known
  exact chain.bind fun value fine => finish_alike slot kind (some node) fine

private theorem visitLeaf_alike {node : Expr} (meets : Meets s met node) {topdown inherited : Value}
    (passed : met topdown) (stamped : met inherited) :
    Action.Alike s met (fun entries => met (.map entries)) none none
      (t.visitLeaf .analysis topdown inherited node)
      (t.visitLeaf .analysis topdown inherited node) := by
  refine (scopeAt_alike meets stamped).bind fun scope inForce => ?_
  have readied : Action.Alike s met (fun made => made = node) none none
      (pure node : Action σ Expr) (pure node) := Action.alike_pure rfl
  refine readied.bind fun made same => ?_
  rw [same]
  exact invoke_finish_alike handlers params _ _ none passed inForce [] (by simp)
    (meets.nodes node .self)

private theorem visitComposite_alike {node : Expr} (composite : node.kind.isComposite = true)
    (meets : Meets s met node) (each : ∀ n ∈ traversed node, t.VisitsAlike s met n) :
    t.VisitsAlike s met node := by
  intro topdown inherited passed stamped
  have known := meets.nodes node .self
  rw [visit_of_composite t _ composite]
  refine (scopeAt_alike meets stamped).bind fun scope inForce => ?_
  refine (targetOf_alike node scope).bind fun target _ => ?_
  refine (handlers.descend_alike params trivial target passed inForce known).bind
    fun outcome fine => ?_
  cases outcome with
  | skipped value =>
    exact (Action.alike_note _).bind fun _ _ => finish_alike .topdown node.kind none fine
  | done inner =>
    refine (visitAll_alike each fine inForce).bind fun results collected => ?_
    have readied : Action.Alike s met (fun made => made = node) none none
        (pure node : Action σ Expr) (pure node) := Action.alike_pure rfl
    exact readied.bind fun made same => by
      rw [same]
      exact invoke_finish_alike handlers params _ _ target fine inForce results collected known

theorem visit_alike {node : Expr} (meets : Meets s met node) : t.VisitsAlike s met node := by
  induction node using Node.induction with
  | atomic | symbol | primitive =>
    intro topdown inherited passed stamped
    exact visitLeaf_alike handlers params meets passed stamped
  | pairlist tag params' ih =>
    refine visitComposite_alike handlers params rfl meets fun n member => ?_
    obtain ⟨p, listed, given⟩ := List.mem_filterMap.mp member
    exact ih p listed n given (meets.of_comes (.under member .self))
  | call tag callee args _ ih =>
    refine visitComposite_alike handlers params rfl meets fun n member => ?_
    have below := meets.of_comes (.under member .self)
    obtain ⟨a, listed, rfl⟩ := List.mem_map.mp member
    exact ih a listed below

end

end Traversal

end TreePass
