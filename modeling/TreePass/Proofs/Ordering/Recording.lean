import TreePass.Proofs.Dispatch.Exactness
import TreePass.Proofs.Refilling

/-!
Recording the calls of handlers. A relay is a handler that hands its node on to the rest of its
chain exactly once. A recording traversal keeps, beside what its handlers keep for themselves, a
log of all their calls, those of the standard handlers included; apart from the log it does what
the plain traversal does.
-/

set_option autoImplicit false
set_option relaxedAutoImplicit false

namespace TreePass

variable {ι σ α β ρ : Type}

/-- A handler that hands its node on to the rest of its chain once. What it does before gives what
it does with the answer; neither part can reach the rest of the chain again. -/
abbrev Relay (σ : Type) := Expr → Context σ → Action σ (Value → Action σ Value)

namespace Relay

def handler (relay : Relay σ) : Handler σ := fun node ctx => do
  let finish ← relay node { ctx with next := none }
  let value ← ctx.callNext node
  finish value

/-- A relay that neither skips nor fails, before or after the rest of its chain. -/
def Steady (relay : Relay σ) : Prop :=
  ∀ node ctx s, (relay node ctx).Ends s fun finish _ =>
    ∀ value s', (finish value).Ends s' fun _ _ => True

end Relay

/-- What handlers keep, with the log of their calls: each handler with the node it was given. -/
structure Recorded (ι σ : Type) where
  state : σ
  log : List (Link ι × Expr)

def Store.forget (s : Store (Recorded ι σ)) : Store σ :=
  ⟨s.tables, s.scopes, s.visits, s.warnings, s.notes, s.user.state⟩

/-- The store with a log. -/
def Store.withLog (s : Store σ) (log : List (Link ι × Expr)) : Store (Recorded ι σ) :=
  ⟨s.tables, s.scopes, s.visits, s.warnings, s.notes, ⟨s.user, log⟩⟩

/-- The circumstances of a handler call without the rest of the chain. -/
def Context.forget (ctx : Context (Recorded ι σ)) : Context σ :=
  ⟨ctx.mode, ctx.topdown, ctx.bottomup, ctx.scope, ctx.flags, ctx.env, ctx.params, none, ctx.visit⟩

namespace Action

/-- The same action beside a log, which it does not touch. -/
def lift (action : Action σ α) : Action (Recorded ι σ) α where
  run s := ((action.run s.forget).1, (action.run s.forget).2.withLog s.user.log)
  grows s := by
    have grown := action.grows s.forget
    exact ⟨grown.tables, grown.scopes, grown.visits⟩

def record (link : Link ι) (node : Expr) : Action (Recorded ι σ) Unit :=
  modifyUser fun kept => { kept with log := kept.log ++ [(link, node)] }

end Action

/-- A relay that records its calls. -/
def Relay.recording (label : ι) (relay : Relay σ) : Handler (Recorded ι σ) := fun node ctx => do
  Action.record (.installed label) node
  let finish ← (relay node ctx.forget).lift
  let value ← ctx.callNext node
  (finish value).lift

def Standard.recording (handler : Standard) : Handler (Recorded ι σ) := fun node ctx => do
  Action.record (.standard handler) node
  handler.run node ctx

namespace Install

variable {η θ : Type}

/-- The same use of a builder with another handler. -/
def map (f : η → θ) : Install η → Install θ
  | handler slot h => handler slot (f h)
  | call identity h => call identity (f h)
  | topdown identity h => topdown identity (f h)

theorem forSlot?_map (f : η → θ) (slot : Slot) (i : Install η) :
    (i.map f).forSlot? slot = (i.forSlot? slot).map f := by
  cases i with
  | handler other h => simp only [map, forSlot?]; split_ifs <;> rfl
  | call | topdown => rfl

theorem forTarget?_map (f : η → θ) (slot : Slot) (identity : Identity) (i : Install η) :
    (i.map f).forTarget? slot identity = (i.forTarget? slot identity).map f := by
  cases i with
  | handler => rfl
  | call other h => simp only [map, forTarget?]; split_ifs <;> rfl
  | topdown other h => simp only [map, forTarget?]; split_ifs <;> rfl

@[simp] theorem target?_map (f : η → θ) (i : Install η) : (i.map f).target? = i.target? := by
  cases i <;> rfl

end Install

/-- A traversal by the history of its configuration, every installed handler being a relay with a
label. -/
structure RelaySetup (ι σ : Type) where
  mode : Mode
  installs : List (Install (ι × Relay σ))
  flags : Flags
  env : Option Environment
  params : Table

namespace RelaySetup

variable (setup : RelaySetup ι σ)

def plain : Setup σ where
  mode := setup.mode
  installs := setup.installs.map (Install.map fun h => h.2.handler)
  flags := setup.flags
  env := setup.env
  params := setup.params

/-- Below all relays of a slot its standard handler, which records its calls too. -/
def standards : List (Install (Handler (Recorded ι σ))) :=
  Slot.all.map fun slot => .handler slot (Standard.ofSlot setup.mode slot).recording

def recording : Setup (Recorded ι σ) where
  mode := setup.mode
  installs := setup.installs.map (Install.map fun h => h.2.recording h.1) ++ setup.standards
  flags := setup.flags
  env := setup.env
  params := setup.params

def relays (slot : Slot) (target : Option Identity) : List (ι × Relay σ) :=
  (match target with
    | some identity => setup.installs.filterMap (Install.forTarget? slot identity)
    | none => []) ++ setup.installs.filterMap (Install.forSlot? slot)

private theorem plain_fullChain (slot : Slot) (target : Option Identity) :
    setup.plain.traversal.config.fullChain slot target =
      (setup.relays slot target).map (fun h => .installed h.2.handler) ++
        [.standard (Standard.ofSlot setup.mode slot)] := by
  have ofSlot : setup.plain.installs.filterMap (Install.forSlot? slot) =
      (setup.installs.filterMap (Install.forSlot? slot)).map fun h => h.2.handler := by
    simp only [plain, List.filterMap_map, List.map_filterMap]
    exact List.filterMap_congr fun i _ => Install.forSlot?_map _ slot i
  have ofTarget (identity : Identity) :
      setup.plain.installs.filterMap (Install.forTarget? slot identity) =
        (setup.installs.filterMap (Install.forTarget? slot identity)).map fun h => h.2.handler := by
    simp only [plain, List.filterMap_map, List.map_filterMap]
    exact List.filterMap_congr fun i _ => Install.forTarget?_map _ slot identity i
  rw [Setup.traversal, Config.built_fullChain, genericChain, ofSlot]
  cases target with
  | none => simp only [relays, targetHandlers, List.nil_append, List.map_map]; rfl
  | some identity =>
    simp only [relays, targetHandlers, ofTarget, List.map_map, List.map_append, List.append_assoc]
    rfl

private theorem standards_forSlot (slot : Slot) :
    setup.standards.filterMap (Install.forSlot? slot) =
      [(Standard.ofSlot setup.mode slot).recording] := by
  cases slot <;> rfl

theorem recording_fullChain (slot : Slot) (target : Option Identity) :
    setup.recording.traversal.config.fullChain slot target =
      (setup.relays slot target).map (fun h => .installed (h.2.recording h.1)) ++
        [.installed (Standard.ofSlot setup.mode slot).recording,
          .standard (Standard.ofSlot setup.mode slot)] := by
  have ofSlot : setup.recording.installs.filterMap (Install.forSlot? slot) =
      ((setup.installs.filterMap (Install.forSlot? slot)).map fun h => h.2.recording h.1) ++
        [(Standard.ofSlot setup.mode slot).recording] := by
    rw [recording, List.filterMap_append, standards_forSlot, List.filterMap_map, List.map_filterMap]
    congr 1
    exact List.filterMap_congr fun i _ => Install.forSlot?_map _ slot i
  have ofTarget (identity : Identity) :
      setup.recording.installs.filterMap (Install.forTarget? slot identity) =
        (setup.installs.filterMap (Install.forTarget? slot identity)).map
          fun h => h.2.recording h.1 := by
    rw [recording, List.filterMap_append, List.filterMap_map, List.map_filterMap]
    have none_there : setup.standards.filterMap (Install.forTarget? slot identity) = [] := rfl
    rw [none_there, List.append_nil]
    exact List.filterMap_congr fun i _ => Install.forTarget?_map _ slot identity i
  rw [Setup.traversal, Config.built_fullChain, genericChain, ofSlot]
  cases target with
  | none =>
    simp only [relays, targetHandlers, List.nil_append, List.map_append, List.map_map,
      List.append_assoc]
    rfl
  | some identity =>
    simp only [relays, targetHandlers, ofTarget, List.map_append, List.map_map, List.append_assoc]
    rfl

theorem isRegistered_eq (identity : Identity) :
    setup.recording.traversal.config.isRegistered identity =
      setup.plain.traversal.config.isRegistered identity := by
  rw [Setup.isRegistered_eq, Setup.isRegistered_eq, isTargeted, isTargeted, recording, plain,
    List.any_append, List.any_map, List.any_map]
  have none_there : (setup.standards.any fun i => i.target? == some identity) = false := rfl
  simp only [none_there, Bool.or_false, Function.comp_def, Install.target?_map]

theorem hasTargets_eq : setup.recording.traversal.config.hasTargets =
    setup.plain.traversal.config.hasTargets := by
  rw [Setup.hasTargets_eq, Setup.hasTargets_eq, anyTargeted, anyTargeted, recording, plain,
    List.any_append, List.any_map, List.any_map]
  have none_there : (setup.standards.any fun i => i.target?.isSome) = false := rfl
  simp only [none_there, Bool.or_false, Function.comp_def, Install.target?_map]

end RelaySetup

/-- The recorded action has the outcome of the plain one and leaves the same store, but for the
log. -/
def Action.Mirrors (recorded : Action (Recorded ι σ) α) (plain : Action σ α) : Prop :=
  ∀ s, plain.run s.forget = ((recorded.run s).1, (recorded.run s).2.forget)

namespace Action

private theorem mirrors_pure (a : α) : Mirrors (pure a : Action (Recorded ι σ) α)
    (pure a) := fun _ => rfl

private theorem mirrors_fail (fault : Fault) :
    Mirrors (fail fault : Action (Recorded ι σ) α) (fail fault) := fun _ => rfl

private theorem mirrors_note (entry : Note) :
    Mirrors (note entry : Action (Recorded ι σ) Unit) (note entry) := fun _ => rfl

private theorem mirrors_ofExcept (known : Except Fault α) :
    Mirrors (ofExcept known : Action (Recorded ι σ) α) (ofExcept known) := by
  cases known with
  | ok a => exact mirrors_pure a
  | error fault => exact mirrors_fail fault

private theorem mirrors_lift (action : Action σ α) : Mirrors
    (action.lift : Action (Recorded ι σ) α) action :=
  fun _ => rfl

theorem Mirrors.bind {recorded : Action (Recorded ι σ) α} {plain : Action σ α}
    {next : α → Action (Recorded ι σ) β} {next' : α → Action σ β}
    (first : recorded.Mirrors plain) (rest : ∀ a, (next a).Mirrors (next' a)) :
    (recorded >>= next).Mirrors (plain >>= next') := by
  intro s
  have here := first s
  cases ran : recorded.run s with
  | mk outcome after =>
    rw [ran] at here
    cases outcome with
    | error fault => rw [run_bind_of_error ran, run_bind_of_error here]
    | ok a => rw [run_bind_of_ok ran, run_bind_of_ok here, rest a after]

theorem Mirrors.record {next : Unit → Action (Recorded ι σ) β} {plain : Action σ β}
    (link : Link ι) (node : Expr) (rest : (next ()).Mirrors plain) :
    (Action.record link node >>= next).Mirrors plain :=
  fun s => rest { s with user := { s.user with log := s.user.log ++ [(link, node)] } }

theorem Mirrors.catchSkip {recorded : Action (Recorded ι σ) α} {plain : Action σ α}
    (mirrors : recorded.Mirrors plain) (visit : Nat) :
    (recorded.catchSkip visit).Mirrors (plain.catchSkip visit) := by
  intro s
  have here := mirrors s
  cases ran : recorded.run s with
  | mk outcome after =>
    rw [ran] at here
    cases outcome with
    | ok a => rw [run_catchSkip_of_ok ran, run_catchSkip_of_ok here]
    | error fault =>
      simp only [Action.catchSkip, ran, here]
      cases fault with
      | skip other value =>
        by_cases same : other = visit
        · simp only [same, ↓reduceIte]
        · simp only [same, ↓reduceIte]
      | _ => rfl

end Action

open TreePass.Action (Mirrors)

namespace Node

private theorem copyTag_mirrors (tag : Tag) :
    Mirrors (copyTag tag : Action (Recorded ι σ) Tag) (copyTag tag) := fun _ => rfl

private theorem cloneArgs_mirrors {args : List (Option String × Expr)}
    (each : ∀ a ∈ args, Mirrors (a.2.clone : Action (Recorded ι σ) Expr) a.2.clone) :
    Mirrors (cloneArgs args : Action (Recorded ι σ) _) (cloneArgs args) := by
  induction args with
  | nil => exact Action.mirrors_pure []
  | cons a rest ih =>
    obtain ⟨name, a⟩ := a
    have later := ih fun b h => each b (List.mem_cons_of_mem _ h)
    refine Mirrors.bind (each (name, a) List.mem_cons_self) fun copy => ?_
    exact Mirrors.bind later fun others => Action.mirrors_pure _

private theorem cloneParams_mirrors {params : List (String × Option Expr)}
    (each : ∀ p ∈ params, ∀ d ∈ p.2, Mirrors (d.clone : Action (Recorded ι σ) Expr) d.clone) :
    Mirrors (cloneParams params : Action (Recorded ι σ) _) (cloneParams params) := by
  induction params with
  | nil => exact Action.mirrors_pure []
  | cons p rest ih =>
    have later := ih fun q h => each q (List.mem_cons_of_mem _ h)
    obtain ⟨name, d | d⟩ := p
    · exact Mirrors.bind later fun others => Action.mirrors_pure _
    · refine Mirrors.bind (each (name, some d) List.mem_cons_self d rfl) fun copy => ?_
      exact Mirrors.bind later fun others => Action.mirrors_pure _

private theorem clone_mirrors (node : Expr) :
    Mirrors (node.clone : Action (Recorded ι σ) Expr) node.clone := by
  induction node using Node.induction with
  | atomic tag value => exact Mirrors.bind (copyTag_mirrors tag) fun _ => Action.mirrors_pure _
  | symbol tag name => exact Mirrors.bind (copyTag_mirrors tag) fun _ => Action.mirrors_pure _
  | primitive tag ref => exact Mirrors.bind (copyTag_mirrors tag) fun _ => Action.mirrors_pure _
  | pairlist tag params ih =>
    refine Mirrors.bind (cloneParams_mirrors ih) fun copies => ?_
    exact Mirrors.bind (copyTag_mirrors tag) fun _ => Action.mirrors_pure _
  | call tag callee args ihCallee ih =>
    refine Mirrors.bind ihCallee fun copy => ?_
    refine Mirrors.bind (cloneArgs_mirrors ih) fun copies => ?_
    exact Mirrors.bind (copyTag_mirrors tag) fun _ => Action.mirrors_pure _

private theorem withChildren_mirrors (node : Expr) (fresh : List Expr) :
    Mirrors (node.withChildren fresh : Action (Recorded ι σ) Expr) (node.withChildren fresh) := by
  rw [withChildren_eq, withChildren_eq]
  split_ifs
  · exact Mirrors.bind (copyTag_mirrors _) fun _ => Action.mirrors_pure _
  · exact Action.mirrors_fail _

end Node

structure Shape.Mirrors (recorded : Shape (Recorded ι σ) ρ) (plain : Shape σ ρ) : Prop where
  leaf : ∀ node, (recorded.leaf node).Mirrors (plain.leaf node)
  composite : ∀ node results,
    (recorded.composite node results).Mirrors (plain.composite node results)
  bottomup : recorded.bottomup = plain.bottomup
  accept : ∀ made value, Option.Rel Action.Mirrors (recorded.accept made value)
    (plain.accept made value)

namespace Shape

theorem analysis_mirrors : Shape.Mirrors (analysis : Shape (Recorded ι σ) Entries) analysis where
  leaf node := Action.mirrors_pure node
  composite node _ := Action.mirrors_pure node
  bottomup := rfl
  accept made value := by
    cases given : value.entries? with
    | none => simp only [analysis, given, Option.map_none]; exact .none
    | some entries =>
      simp only [analysis, given, Option.map_some]
      exact .some (Action.mirrors_pure entries)

private theorem rebuild_mirrors (node : Expr) (fresh : List Expr) :
    Action.Mirrors (rebuild node fresh : Action (Recorded ι σ) Expr) (rebuild node fresh) := by
  cases node with
  | call tag callee args =>
    refine Action.Mirrors.bind (Node.clone_mirrors callee) fun copy => ?_
    exact Node.withChildren_mirrors _ _
  | atomic | symbol | primitive | pairlist => exact Node.withChildren_mirrors _ _

theorem transforming_mirrors :
    Shape.Mirrors (transforming : Shape (Recorded ι σ) Expr) transforming where
  leaf node := Node.clone_mirrors node
  composite := rebuild_mirrors
  bottomup := rfl
  accept made value := by
    cases given : value.node? with
    | none => simp only [transforming, given, Option.map_none]; exact .none
    | some node =>
      simp only [transforming, given, Option.map_some]
      refine .some ?_
      cases made with
      | none => exact Node.clone_mirrors node
      | some fresh =>
        by_cases same : node.same fresh = true
        · simp only [same, ↓reduceIte]; exact Action.mirrors_pure fresh
        · simp only [same, Bool.false_eq_true, ↓reduceIte]; exact Node.clone_mirrors node

end Shape

private theorem Standard.run_mirrors (handler : Standard) (node : Expr)
    {ctx : Context (Recorded ι σ)} {ctx' : Context σ} (topdown : ctx.topdown = ctx'.topdown)
    (bottomup : ctx.bottomup = ctx'.bottomup) :
    Mirrors (handler.run node ctx) (handler.run node ctx') := by
  cases handler with
  | keepNode => exact Action.mirrors_pure _
  | emptyAnalysis => exact Action.mirrors_pure _
  | passTopdown => simp only [run, topdown]; exact Action.mirrors_pure _
  | mergeAnalysis =>
    simp only [run, bottomup]
    exact Action.Mirrors.bind (Action.mirrors_ofExcept _) fun merged => Action.mirrors_pure _

namespace Traversal

theorem invoke_cons (ctx : Context σ) (link : Link (Handler σ)) {rest : List (Link (Handler σ))}
    (more : rest ≠ []) (node : Expr) :
    invoke ctx (link :: rest) node = link.run node { ctx with next := some (invoke ctx rest) } := by
  cases rest with
  | nil => exact absurd rfl more
  | cons second rest => rfl

private theorem invoke_mirrors (relays : List (ι × Relay σ)) (standard : Standard)
    (last : Link (Handler (Recorded ι σ))) {ctx : Context (Recorded ι σ)} {ctx' : Context σ}
    (same : ctx.forget = { ctx' with next := none }) (node : Expr) :
    Mirrors
      (invoke ctx (relays.map (fun h => .installed (h.2.recording h.1)) ++
        [.installed standard.recording, last]) node)
      (invoke ctx' (relays.map (fun h => .installed h.2.handler) ++ [.standard standard])
        node) := by
  induction relays with
  | nil =>
    have topdown : ctx.topdown = ctx'.topdown := congrArg Context.topdown same
    have bottomup : ctx.bottomup = ctx'.bottomup := congrArg Context.bottomup same
    exact Action.Mirrors.record _ _ (Standard.run_mirrors standard node topdown bottomup)
  | cons relay rest ih =>
    rw [List.map_cons, List.cons_append, invoke_cons ctx _ (by simp), List.map_cons,
      List.cons_append, invoke_cons ctx' _ (by simp)]
    refine Action.Mirrors.record _ _ ?_
    have began : Mirrors ((relay.2 node ctx.forget).lift : Action (Recorded ι σ) _)
        (relay.2 node { ctx' with next := none }) := by
      rw [same]
      exact Action.mirrors_lift _
    refine Action.Mirrors.bind began fun finish => ?_
    exact Action.Mirrors.bind ih fun value => Action.mirrors_lift _

end Traversal

namespace RelaySetup

open Traversal

variable (setup : RelaySetup ι σ)

private theorem warn_mirrors (warning : Warning) :
    Mirrors (setup.recording.traversal.warn warning) (setup.plain.traversal.warn warning) := by
  have flags : setup.recording.traversal.flags = setup.plain.traversal.flags := rfl
  simp only [warn, flags]
  split_ifs
  · exact fun _ => rfl
  · exact Action.mirrors_pure ()

private theorem dispatch_mirrors (identity : Identity) :
    Mirrors (setup.recording.traversal.dispatch identity)
      (setup.plain.traversal.dispatch identity) := by
  simp only [dispatch, setup.isRegistered_eq]
  split_ifs
  · exact Action.Mirrors.bind (Action.mirrors_note _) fun _ => Action.mirrors_pure _
  · exact Action.mirrors_pure _

private theorem resolve_mirrors (callee : Expr) (scope : Value) :
    Mirrors (setup.recording.traversal.resolve callee scope)
      (setup.plain.traversal.resolve callee scope) := by
  simp only [resolve, setup.hasTargets_eq]
  split_ifs
  · cases callee with
    | atomic | pairlist | call => exact Action.mirrors_pure _
    | primitive tag ref => exact setup.dispatch_mirrors ref
    | symbol tag name =>
      have lookup : setup.recording.traversal.lookup name = setup.plain.traversal.lookup name := rfl
      have registered : setup.recording.traversal.config.isRegistered =
          setup.plain.traversal.config.isRegistered := funext setup.isRegistered_eq
      simp only [lookup, registered]
      refine Action.Mirrors.bind (Action.mirrors_ofExcept _) fun bound => ?_
      split_ifs
      · refine Action.Mirrors.bind (Action.mirrors_note _) fun _ => ?_
        exact Action.Mirrors.bind (setup.warn_mirrors _) fun _ => Action.mirrors_pure _
      · exact Action.mirrors_pure _
      · cases setup.plain.traversal.lookup name with
        | some identity => exact setup.dispatch_mirrors identity
        | none =>
          refine Action.Mirrors.bind (Action.mirrors_note _) fun _ => ?_
          exact Action.Mirrors.bind (setup.warn_mirrors _) fun _ => Action.mirrors_pure _
  · exact Action.mirrors_pure _

private theorem targetOf_mirrors (node : Expr) (scope : Value) :
    Mirrors (setup.recording.traversal.targetOf node scope)
      (setup.plain.traversal.targetOf node scope) := by
  cases node with
  | call tag callee args => exact setup.resolve_mirrors callee scope
  | atomic | symbol | primitive | pairlist => exact Action.mirrors_pure none

private theorem scopeAt_mirrors (node : Expr) (inherited : Value) :
    Mirrors (scopeAt node inherited : Action (Recorded ι σ) Value) (scopeAt node inherited) := by
  intro s
  rw [run_scopeAt, run_scopeAt]
  rfl

private theorem chain_mirrors (slot : Slot) (target : Option Identity) (topdown scope : Value)
    (bottomup : Option (List Value)) (visit : Option Nat) (node : Expr) :
    Mirrors
      (invoke (setup.recording.traversal.context topdown scope bottomup visit)
        (setup.recording.traversal.config.fullChain slot target) node)
      (invoke (setup.plain.traversal.context topdown scope bottomup visit)
        (setup.plain.traversal.config.fullChain slot target) node) := by
  have modes : setup.recording.traversal.mode = setup.plain.traversal.mode := by
    simp only [Traversal.mode, Setup.traversal, Config.built_mode]
    rfl
  rw [recording_fullChain, plain_fullChain]
  refine invoke_mirrors _ _ _ ?_ node
  simp only [Context.forget, Traversal.context, modes]
  rfl

variable {shape : Shape (Recorded ι σ) ρ} {shape' : Shape σ ρ}

private theorem finish_mirrors (shaped : shape.Mirrors shape') (slot : Slot) (kind : Kind)
    (made : Option Expr) (value : Value) :
    Mirrors (setup.recording.traversal.finish shape slot kind made value)
      (setup.plain.traversal.finish shape' slot kind made value) := by
  have modes : setup.recording.traversal.mode = setup.plain.traversal.mode := by
    simp only [Traversal.mode, Setup.traversal, Config.built_mode]
    rfl
  have accepted := shaped.accept made value
  unfold Traversal.finish
  revert accepted
  generalize shape.accept made value = left
  generalize shape'.accept made value = right
  intro accepted
  cases accepted with
  | none => simp only [modes]; exact Action.mirrors_fail _
  | some mirrors => exact mirrors

private theorem visitAll_mirrors {nodes : List Expr}
    (each : ∀ n ∈ nodes, ∀ topdown inherited,
      Mirrors (setup.recording.traversal.visit shape topdown inherited n)
        (setup.plain.traversal.visit shape' topdown inherited n)) (topdown inherited : Value) :
    Mirrors (setup.recording.traversal.visitAll shape topdown inherited nodes)
      (setup.plain.traversal.visitAll shape' topdown inherited nodes) := by
  induction nodes with
  | nil => exact Action.mirrors_pure []
  | cons node rest ih =>
    refine Action.Mirrors.bind (each node List.mem_cons_self topdown inherited) fun result => ?_
    refine Action.Mirrors.bind (ih fun n h => each n (List.mem_cons_of_mem _ h)) fun results => ?_
    exact Action.mirrors_pure _

private theorem visitLeaf_mirrors (shaped : shape.Mirrors shape') (topdown inherited : Value)
    (node : Expr) :
    Mirrors (setup.recording.traversal.visitLeaf shape topdown inherited node)
      (setup.plain.traversal.visitLeaf shape' topdown inherited node) := by
  refine Action.Mirrors.bind (scopeAt_mirrors node inherited) fun scope => ?_
  refine Action.Mirrors.bind (shaped.leaf node) fun made => ?_
  rw [shaped.bottomup]
  refine Action.Mirrors.bind (setup.chain_mirrors _ _ _ _ _ _ _) fun value => ?_
  exact setup.finish_mirrors shaped _ _ _ _

private theorem composite_mirrors (shaped : shape.Mirrors shape') {node : Expr}
    (composite : node.kind.isComposite = true)
    (each : ∀ n ∈ traversed node, ∀ topdown inherited,
      Mirrors (setup.recording.traversal.visit shape topdown inherited n)
        (setup.plain.traversal.visit shape' topdown inherited n)) (topdown inherited : Value) :
    Mirrors (setup.recording.traversal.visit shape topdown inherited node)
      (setup.plain.traversal.visit shape' topdown inherited node) := by
  rw [visit_of_composite _ _ composite, visit_of_composite _ _ composite]
  refine Action.Mirrors.bind (scopeAt_mirrors node inherited) fun scope => ?_
  refine Action.Mirrors.bind (setup.targetOf_mirrors node scope) fun target => ?_
  have newVisit : Mirrors (Action.newVisit : Action (Recorded ι σ) Nat) Action.newVisit :=
    fun _ => rfl
  have down : Mirrors (setup.recording.traversal.descend target topdown scope node)
      (setup.plain.traversal.descend target topdown scope node) :=
    Action.Mirrors.bind newVisit fun visit =>
      Action.Mirrors.catchSkip (setup.chain_mirrors _ _ _ _ _ _ _) visit
  refine Action.Mirrors.bind down fun outcome => ?_
  cases outcome with
  | skipped value =>
    exact Action.Mirrors.bind (Action.mirrors_note _) fun _ => setup.finish_mirrors shaped _ _ _ _
  | done inner =>
    refine Action.Mirrors.bind (setup.visitAll_mirrors each inner scope) fun results => ?_
    refine Action.Mirrors.bind (shaped.composite node results) fun made => ?_
    rw [shaped.bottomup]
    refine Action.Mirrors.bind (setup.chain_mirrors _ _ _ _ _ _ _) fun value => ?_
    exact setup.finish_mirrors shaped _ _ _ _

theorem visit_mirrors (shaped : shape.Mirrors shape') (node : Expr) (topdown inherited : Value) :
    Mirrors (setup.recording.traversal.visit shape topdown inherited node)
      (setup.plain.traversal.visit shape' topdown inherited node) := by
  induction node using Node.induction generalizing topdown inherited with
  | atomic | symbol | primitive =>
    rw [visit_of_leaf _ _ rfl, visit_of_leaf _ _ rfl]
    exact setup.visitLeaf_mirrors shaped topdown inherited _
  | pairlist tag params ih =>
    refine setup.composite_mirrors shaped rfl (fun n member => ?_) topdown inherited
    obtain ⟨p, listed, given⟩ := List.mem_filterMap.mp member
    exact ih p listed n given
  | call tag callee args _ ih =>
    refine setup.composite_mirrors shaped rfl (fun n member => ?_) topdown inherited
    obtain ⟨a, listed, rfl⟩ := List.mem_map.mp member
    exact ih a listed

end RelaySetup

end TreePass
