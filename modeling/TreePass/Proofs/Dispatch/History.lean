import TreePass.Proofs.Ordering.Recording

/-!
What a configuration keeps of its history. For every place, a slot or a target at a slot, it keeps
the handlers installed there, newest first, and nothing else counts: uses of builders at different
places can be exchanged. A walk along a chain stays within it, and only the standard handler at its
end is left without a rest of the chain to run.
-/

set_option autoImplicit false
set_option relaxedAutoImplicit false

namespace TreePass

variable {σ ρ η θ : Type}

namespace Install

/-- Where a handler is installed: at a slot for all nodes, or there for one target. -/
def place : Install η → Slot × Option Identity
  | handler slot _ => (slot, none)
  | call identity _ => (.call, some identity)
  | topdown identity _ => (.topdown, some identity)

private theorem forSlot?_eq (slot : Slot) (i : Install η) :
    i.forSlot? slot = if i.place = (slot, none) then some i.added else none := by
  cases i with
  | handler other h => by_cases same : other = slot <;> simp [forSlot?, place, added, same]
  | call | topdown => simp [forSlot?, place]

private theorem forTarget?_eq (slot : Slot) (identity : Identity) (i : Install η) :
    i.forTarget? slot identity =
      if i.place = (slot, some identity) then some i.added else none := by
  cases i with
  | handler => simp [forTarget?, place]
  | call other h | topdown other h => simp [forTarget?, place, added, eq_comm]

private theorem target?_eq (i : Install η) : i.target? = i.place.2 := by
  cases i <;> rfl

@[simp] theorem place_map (f : η → θ) (i : Install η) : (i.map f).place = i.place := by
  cases i <;> rfl

@[simp] theorem added_map (f : η → θ) (i : Install η) : (i.map f).added = f i.added := by
  cases i <;> rfl

end Install

def installedAt (installs : List (Install η)) (place : Slot × Option Identity) : List η :=
  (installs.filter fun i => i.place = place).map Install.added

def anyInstalledAt (installs : List (Install η)) (place : Slot × Option Identity) :
    Option (List η) :=
  if (installedAt installs place).isEmpty then none else some (installedAt installs place)

def chainOf (handlers : List η) (standard : Standard) : List (Link η) :=
  handlers.map .installed ++ [.standard standard]

/-- The handlers that run at a slot: those for the target of the node, if it has one, in front of
those for all nodes. -/
def handlersFor (installs : List (Install η)) (slot : Slot) : Option Identity → List η
  | some identity => installedAt installs (slot, some identity) ++ installedAt installs (slot, none)
  | none => installedAt installs (slot, none)

section

variable (installs : List (Install η))

private theorem filterMap_place (place : Slot × Option Identity) :
    (installs.filterMap fun i => if i.place = place then some i.added else none) =
      installedAt installs place := by
  induction installs with
  | nil => rfl
  | cons last earlier ih =>
    by_cases here : last.place = place
    · simp only [List.filterMap_cons, here, ↓reduceIte, ih, installedAt, List.filter_cons,
        decide_true, List.map_cons]
    · simp only [List.filterMap_cons, here, ↓reduceIte, ih, installedAt, List.filter_cons,
        decide_false, Bool.false_eq_true]

private theorem genericChain_eq (mode : Mode) (slot : Slot) :
    genericChain mode installs slot =
      chainOf (installedAt installs (slot, none)) (Standard.ofSlot mode slot) := by
  rw [genericChain, chainOf, ← filterMap_place]
  congr 2
  exact List.filterMap_congr fun i _ => i.forSlot?_eq slot

private theorem built_fullChain_eq (mode : Mode) (slot : Slot) (target : Option Identity) :
    (Config.built mode installs).fullChain slot target =
      chainOf (handlersFor installs slot target) (Standard.ofSlot mode slot) := by
  rw [Config.built_fullChain, genericChain_eq]
  cases target with
  | none => rfl
  | some identity =>
    rw [targetHandlers, handlersFor, chainOf, chainOf, List.map_append, List.append_assoc,
      ← filterMap_place installs (slot, some identity)]
    congr 2
    exact List.filterMap_congr fun i _ => i.forTarget?_eq slot identity

private theorem installedAt_map (f : η → θ) (place : Slot × Option Identity) :
    installedAt (installs.map (Install.map f)) place = (installedAt installs place).map f := by
  rw [installedAt, installedAt, List.filter_map, List.map_map, List.map_map]
  congr 1
  · funext i
    exact i.added_map f
  · congr 1
    funext i
    rw [Function.comp, i.place_map f]

private theorem handlersFor_map (f : η → θ) (slot : Slot) (target : Option Identity) :
    handlersFor (installs.map (Install.map f)) slot target =
      (handlersFor installs slot target).map f := by
  cases target with
  | none => exact installedAt_map installs f _
  | some identity => rw [handlersFor, handlersFor, List.map_append, installedAt_map,
      installedAt_map]

private theorem installedAt_cons (last : Install η) (place : Slot × Option Identity) :
    installedAt (last :: installs) place =
      if last.place = place then last.added :: installedAt installs place
      else installedAt installs place := by
  by_cases here : last.place = place <;> simp [installedAt, here]

private theorem anyInstalledAt_cons (last : Install η) (place : Slot × Option Identity) :
    anyInstalledAt (last :: installs) place =
      if last.place = place then some (last.added :: installedAt installs place)
      else anyInstalledAt installs place := by
  rw [anyInstalledAt, anyInstalledAt, installedAt_cons]
  by_cases here : last.place = place <;> simp [here]

private theorem getD_anyInstalledAt (place : Slot × Option Identity) :
    (anyInstalledAt installs place).getD [] = installedAt installs place := by
  rw [anyInstalledAt]
  cases installedAt installs place <;> rfl

end

private theorem installedAt_exchange {first second : Install η} (apart : first.place ≠ second.place)
    (newer older : List (Install η)) (place : Slot × Option Identity) :
    installedAt (newer ++ second :: first :: older) place =
      installedAt (newer ++ first :: second :: older) place := by
  simp only [installedAt, List.filter_append, List.filter_cons]
  by_cases here : first.place = place
  · have notHere : second.place ≠ place := fun same => apart (here.trans same.symm)
    simp [here, notHere]
  · simp [here]

namespace Config

private theorem find?_apply (config : Config η) (i : Install η) (slot : Slot)
    (identity : Identity) : ((config.apply i).targetsOrNone slot).find? identity =
      if i.place = (slot, some identity) then
        some (i.added :: ((config.targetsOrNone slot).find? identity).getD [])
      else (config.targetsOrNone slot).find? identity := by
  cases i with
  | handler other h => cases slot <;> simp [apply, install, targetsOrNone, Install.place]
  | call other h =>
    cases slot with
    | call =>
      simp only [apply, addCall, targetsOrNone, Targets.find?_add]
      by_cases same : other = identity
      · simp [Install.place, Install.added, same]
      · simp [Install.place, same, Ne.symm same]
    | atomic | symbol | primitive | pairlist | topdown =>
      simp [apply, addCall, targetsOrNone, Install.place]
  | topdown other h =>
    cases slot with
    | topdown =>
      simp only [apply, addTopdown, targetsOrNone, Targets.find?_add]
      by_cases same : other = identity
      · simp [Install.place, Install.added, same]
      · simp [Install.place, same, Ne.symm same]
    | atomic | symbol | primitive | pairlist | call =>
      simp [apply, addTopdown, targetsOrNone, Install.place]

private theorem built_find? (mode : Mode) (installs : List (Install η)) (slot : Slot)
    (identity : Identity) :
    ((built mode installs).targetsOrNone slot).find? identity =
      anyInstalledAt installs (slot, some identity) := by
  induction installs with
  | nil => cases slot <;> rfl
  | cons last earlier ih => rw [built, find?_apply, anyInstalledAt_cons, ih, getD_anyInstalledAt]

/-- Two configurations that cannot be told apart: one mode, and the same handlers at every place. -/
structure Same (config other : Config η) : Prop where
  mode : other.mode = config.mode
  chain : ∀ slot, other.chain slot = config.chain slot
  targetChain? : ∀ slot identity,
    other.targetChain? slot identity = config.targetChain? slot identity
  hasTargets : other.hasTargets = config.hasTargets

private theorem same_of_installedAt (mode : Mode) {installs others : List (Install η)}
    (each : ∀ place, installedAt others place = installedAt installs place) :
    Same (built mode installs) (built mode others) where
  mode := by rw [built_mode, built_mode]
  chain slot := by rw [built_chain, built_chain, genericChain_eq, genericChain_eq, each]
  targetChain? slot identity := by
    have call := built_find? mode others .call identity
    have topdown := built_find? mode others .topdown identity
    rw [anyInstalledAt, each, ← anyInstalledAt, ← built_find? mode] at call topdown
    cases slot with
    | call => exact congrArg Except.ok call
    | topdown => exact congrArg Except.ok topdown
    | atomic | symbol | primitive | pairlist => rfl
  hasTargets := by
    have any (installs : List (Install η)) : (built mode installs).hasTargets = true ↔
        ∃ slot identity, installedAt installs (slot, some identity) ≠ [] := by
      rw [built_hasTargets, anyTargeted, List.any_eq_true]
      constructor
      · rintro ⟨i, member, targeted⟩
        obtain ⟨identity, target⟩ := Option.isSome_iff_exists.mp targeted
        rw [Install.target?_eq] at target
        refine ⟨i.place.1, identity, List.ne_nil_of_mem (a := i.added) ?_⟩
        exact List.mem_map_of_mem (List.mem_filter.mpr ⟨member, by simp [← target]⟩)
      · rintro ⟨slot, identity, some_given⟩
        obtain ⟨h, member⟩ := List.exists_mem_of_ne_nil _ some_given
        obtain ⟨i, listed, -⟩ := List.mem_map.mp member
        obtain ⟨listed, there⟩ := List.mem_filter.mp listed
        refine ⟨i, listed, ?_⟩
        rw [Install.target?_eq, of_decide_eq_true there, Option.isSome_some]
    rw [Bool.eq_iff_iff, any, any]
    simp only [each]

end Config

namespace Traversal

def invokeAt (ctx : Context σ) (chain : List (Link (Handler σ))) (index : Nat) (node : Expr) :
    Action σ Value :=
  invoke ctx (chain.drop index) node

private theorem invokeAt_eq (ctx : Context σ) (chain : List (Link (Handler σ))) {index : Nat}
    (inRange : index < chain.length) (node : Expr) :
    invokeAt ctx chain index node = chain[index].run node { ctx with
      next :=
        if index + 1 < chain.length then some (invokeAt ctx chain (index + 1)) else none } := by
  rw [invokeAt, List.drop_eq_getElem_cons inRange]
  cases rest : chain.drop (index + 1) with
  | nil =>
    have last : ¬ index + 1 < chain.length := Nat.not_lt.mpr (List.drop_eq_nil_iff.mp rest)
    rw [invoke, if_neg last]
  | cons next further =>
    have more : index + 1 < chain.length := by
      by_contra last
      rw [List.drop_eq_nil_of_le (Nat.not_lt.mp last)] at rest
      cases rest
    have onwards : invokeAt ctx chain (index + 1) = invoke ctx (next :: further) := by
      funext n
      rw [invokeAt, rest]
    rw [invoke, if_pos more, onwards]
    exact List.cons_ne_nil _ _

private theorem installed_iff (handlers : List η) (standard : Standard) {index : Nat}
    (inRange : index < (chainOf handlers standard).length) :
    (∃ handler, (chainOf handlers standard)[index] = .installed handler) ↔
      index + 1 < (chainOf handlers standard).length := by
  have length : (chainOf handlers standard).length = handlers.length + 1 := by simp [chainOf]
  rw [length] at inRange ⊢
  by_cases above : index < handlers.length
  · refine iff_of_true ⟨handlers[index], ?_⟩ (Nat.succ_lt_succ above)
    simp only [chainOf]
    rw [List.getElem_append_left (by simpa using above), List.getElem_map]
  · obtain rfl : index = handlers.length := by omega
    refine iff_of_false ?_ (Nat.lt_irrefl _)
    rintro ⟨handler, found⟩
    simp only [chainOf] at found
    rw [List.getElem_append_right (by simp)] at found
    simp at found

/-- A chain runs as before if its installed handlers do what they did wherever a rest of the chain
is left. -/
theorem invoke_congr {f : Handler σ → Handler σ}
    (alike : ∀ h node ctx, ctx.next.isSome = true → f h node ctx = h node ctx)
    (handlers : List (Handler σ)) (standard : Standard) (ctx : Context σ) (node : Expr) :
    invoke ctx (chainOf (handlers.map f) standard) node =
      invoke ctx (chainOf handlers standard) node := by
  induction handlers generalizing node with
  | nil => rfl
  | cons h rest ih =>
    have above (handlers : List (Handler σ)) (node : Expr) (h : Handler σ) :
        invoke ctx (chainOf (h :: handlers) standard) node =
          h node { ctx with next := some (invoke ctx (chainOf handlers standard)) } := by
      rw [chainOf, List.map_cons, List.cons_append, invoke]
      · rfl
      · simp
    rw [List.map_cons, above, above, funext ih]
    exact alike h node _ rfl

end Traversal

namespace Config

/-- Two configurations that run alike: what a traversal asks of them has one answer. -/
structure RunsAlike (config other : Config (Handler σ)) : Prop where
  mode : other.mode = config.mode
  hasTargets : other.hasTargets = config.hasTargets
  isRegistered : ∀ identity, other.isRegistered identity = config.isRegistered identity
  invoke : ∀ ctx slot target node, Traversal.invoke ctx (other.fullChain slot target) node =
    Traversal.invoke ctx (config.fullChain slot target) node

private theorem Same.runsAlike {config other : Config (Handler σ)} (same : Same config other) :
    RunsAlike config other := by
  have call (identity : Identity) :
      other.callTargets.find? identity = config.callTargets.find? identity :=
    Except.ok.inj (same.targetChain? .call identity)
  have topdown (identity : Identity) :
      other.topdownTargets.find? identity = config.topdownTargets.find? identity :=
    Except.ok.inj (same.targetChain? .topdown identity)
  refine ⟨same.mode, same.hasTargets, fun identity => ?_, fun ctx slot target node => ?_⟩
  · rw [isRegistered, isRegistered, call, topdown]
  · have chains : other.fullChain slot target = config.fullChain slot target := by
      cases target with
      | none => exact same.chain slot
      | some identity =>
        simp only [fullChain, same.chain]
        cases slot with
        | call => rw [targetsOrNone, targetsOrNone, call]
        | topdown => rw [targetsOrNone, targetsOrNone, topdown]
        | atomic | symbol | primitive | pairlist => rfl
    rw [chains]

end Config

namespace Traversal

variable {config other : Config (Handler σ)} (flags : Flags) (env : Option Environment)
  (params : Table) (shape : Shape σ ρ)

private theorem visitLeaf_congr (alike : config.RunsAlike other) (topdown inherited : Value)
    (node : Expr) :
    (⟨other, flags, env, params⟩ : Traversal σ).visitLeaf shape topdown inherited node =
      (⟨config, flags, env, params⟩ : Traversal σ).visitLeaf shape topdown inherited node := by
  simp only [visitLeaf, finish, context, mode, alike.mode, alike.invoke]

private theorem visitAll_congr {nodes : List Expr} (topdown inherited : Value)
    (each : ∀ n ∈ nodes,
      (⟨other, flags, env, params⟩ : Traversal σ).visit shape topdown inherited n =
      (⟨config, flags, env, params⟩ : Traversal σ).visit shape topdown inherited n) :
    (⟨other, flags, env, params⟩ : Traversal σ).visitAll shape topdown inherited nodes =
      (⟨config, flags, env, params⟩ : Traversal σ).visitAll shape topdown inherited nodes := by
  induction nodes with
  | nil => rfl
  | cons node rest ih =>
    rw [visitAll, visitAll, each node List.mem_cons_self,
      ih fun n member => each n (List.mem_cons_of_mem _ member)]

private theorem composite_congr (alike : config.RunsAlike other) {node : Expr}
    (composite : node.kind.isComposite = true)
    (each : ∀ n ∈ traversed node, ∀ topdown inherited,
      (⟨other, flags, env, params⟩ : Traversal σ).visit shape topdown inherited n =
        (⟨config, flags, env, params⟩ : Traversal σ).visit shape topdown inherited n)
    (topdown inherited : Value) :
    (⟨other, flags, env, params⟩ : Traversal σ).visit shape topdown inherited node =
      (⟨config, flags, env, params⟩ : Traversal σ).visit shape topdown inherited node := by
  have search (scope : Value) :
      (⟨other, flags, env, params⟩ : Traversal σ).targetOf node scope =
        (⟨config, flags, env, params⟩ : Traversal σ).targetOf node scope := by
    cases node with
    | call tag callee args =>
      simp only [targetOf, resolve, dispatch, warn, lookup, alike.hasTargets, alike.isRegistered,
        funext alike.isRegistered]
      rfl
    | atomic | symbol | primitive | pairlist => rfl
  have below (topdown inherited : Value) :=
    visitAll_congr flags env params shape topdown inherited
      fun n member => each n member topdown inherited
  rw [visit_of_composite _ shape composite, visit_of_composite _ shape composite]
  simp only [search, below, descend, endSkipped, ascend, finish, context, mode, alike.mode,
    alike.invoke]

private theorem visit_congr (alike : config.RunsAlike other) (node : Expr)
    (topdown inherited : Value) :
    (⟨other, flags, env, params⟩ : Traversal σ).visit shape topdown inherited node =
      (⟨config, flags, env, params⟩ : Traversal σ).visit shape topdown inherited node := by
  induction node using Node.induction generalizing topdown inherited with
  | atomic | symbol | primitive =>
    rw [visit_of_leaf _ shape rfl, visit_of_leaf _ shape rfl]
    exact visitLeaf_congr flags env params shape alike topdown inherited _
  | pairlist tag params' ih =>
    refine composite_congr flags env params shape alike rfl (fun n member => ?_) topdown inherited
    obtain ⟨p, listed, given⟩ := List.mem_filterMap.mp member
    exact ih p listed n given
  -- The callee is never visited, so nothing is needed of it.
  | call tag callee args _ ih =>
    refine composite_congr flags env params shape alike rfl (fun n member => ?_) topdown inherited
    obtain ⟨a, listed, rfl⟩ := List.mem_map.mp member
    exact ih a listed

end Traversal

namespace Config

private theorem runsAlike_map {f : Handler σ → Handler σ}
    (alike : ∀ h node ctx, ctx.next.isSome = true → f h node ctx = h node ctx) (mode : Mode)
    (installs : List (Install (Handler σ))) :
    RunsAlike (built mode installs) (built mode (installs.map (Install.map f))) where
  mode := by rw [built_mode, built_mode]
  hasTargets := by
    rw [built_hasTargets, built_hasTargets, anyTargeted, anyTargeted, List.any_map]
    simp only [Function.comp_def, Install.target?_map]
  isRegistered identity := by
    rw [built_isRegistered, built_isRegistered, isTargeted, isTargeted, List.any_map]
    simp only [Function.comp_def, Install.target?_map]
  invoke ctx slot target node := by
    rw [built_fullChain_eq, built_fullChain_eq, handlersFor_map]
    exact Traversal.invoke_congr alike _ _ ctx node

/-- What a configuration keeps of the uses of builders that gave it, the last use first. -/
structure Records (mode : Mode) (installs : List (Install (Handler σ))) : Prop where
  /-- At a slot stand the handlers installed there above the standard handler. -/
  generic : ∀ slot, (built mode installs).chain slot =
    chainOf (installedAt installs (slot, none)) (Standard.ofSlot mode slot)
  /-- For a target, the handlers installed for it, if there are any. -/
  special : ∀ slot identity, slot = .call ∨ slot = .topdown →
    (built mode installs).targetChain? slot identity =
      .ok (anyInstalledAt installs (slot, some identity))
  /-- Other slots have no handlers for single targets. -/
  refused : ∀ slot identity, slot ≠ .call → slot ≠ .topdown →
    (built mode installs).targetChain? slot identity = .error (.noTargets slot)
  /-- A traversal runs the handlers of the target and then those of the slot. -/
  dispatched : ∀ slot target, (built mode installs).fullChain slot target =
    chainOf (handlersFor installs slot target) (Standard.ofSlot mode slot)
  /-- Uses of builders at different places, one right after the other, can be exchanged: nobody who
  asks the configuration can tell, and no traversal does. -/
  exchanged : ∀ newer first second older, installs = newer ++ first :: second :: older →
    first.place ≠ second.place →
      Same (built mode installs) (built mode (newer ++ second :: first :: older)) ∧
      ∀ {ρ : Type} (shape : Shape σ ρ) flags env params topdown inherited node,
        (⟨built mode (newer ++ second :: first :: older), flags, env, params⟩ : Traversal σ).visit
            shape topdown inherited node =
          (⟨built mode installs, flags, env, params⟩ : Traversal σ).visit
            shape topdown inherited node
  /-- The walk along a chain starts in range and goes on in range; exactly the installed handlers
  are told how to go on, and the standard handler at the end is not. -/
  walked : ∀ slot target, 0 < ((built mode installs).fullChain slot target).length ∧
    ∀ ctx node index (inRange : index < ((built mode installs).fullChain slot target).length),
      Traversal.invokeAt ctx ((built mode installs).fullChain slot target) index node =
        ((built mode installs).fullChain slot target)[index].run node { ctx with
          next := if index + 1 < ((built mode installs).fullChain slot target).length
            then some (Traversal.invokeAt ctx ((built mode installs).fullChain slot target)
              (index + 1))
            else none } ∧
      ((∃ handler, ((built mode installs).fullChain slot target)[index] = .installed handler) ↔
        index + 1 < ((built mode installs).fullChain slot target).length)
  /-- No traversal depends on what installed handlers do when they have nothing to go on with. -/
  followed : ∀ f : Handler σ → Handler σ,
    (∀ h node ctx, ctx.next.isSome = true → f h node ctx = h node ctx) →
      ∀ {ρ : Type} (shape : Shape σ ρ) flags env params topdown inherited node,
        (⟨built mode (installs.map (Install.map f)), flags, env, params⟩ : Traversal σ).visit
            shape topdown inherited node =
          (⟨built mode installs, flags, env, params⟩ : Traversal σ).visit
            shape topdown inherited node

/-- Configurations record what was installed, by place and newest first, whatever was installed
where in between. -/
theorem built_records (mode : Mode) (installs : List (Install (Handler σ))) :
    Records mode installs where
  generic slot := by rw [built_chain, genericChain_eq]
  special slot identity special := by
    have found := built_find? mode installs slot identity
    rcases special with rfl | rfl
    · exact congrArg Except.ok found
    · exact congrArg Except.ok found
  refused slot identity noCall noTopdown := by
    cases slot with
    | call => exact absurd rfl noCall
    | topdown => exact absurd rfl noTopdown
    | atomic | symbol | primitive | pairlist => rfl
  dispatched slot target := built_fullChain_eq installs mode slot target
  exchanged newer first second older split apart := by
    subst split
    have same := same_of_installedAt mode (installedAt_exchange apart newer older)
    refine ⟨same, ?_⟩
    intro ρ shape flags env params topdown inherited node
    exact Traversal.visit_congr flags env params shape same.runsAlike node topdown inherited
  walked slot target := by
    rw [built_fullChain_eq]
    refine ⟨by simp [chainOf], fun ctx node index inRange => ⟨?_, ?_⟩⟩
    · exact Traversal.invokeAt_eq ctx _ inRange node
    · exact Traversal.installed_iff _ _ inRange
  followed f alike := by
    intro ρ shape flags env params topdown inherited node
    exact Traversal.visit_congr flags env params shape (runsAlike_map alike mode installs) node
      topdown inherited

end Config

end TreePass
