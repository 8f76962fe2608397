import TreePass.Handler.Config

/-!
Configurations by their history. Whatever was installed, and in whatever order, the chain at a node
is made of the handlers installed for its target, then those of its slot, each newest first, and
the standard handler at the end.
-/

set_option autoImplicit false
set_option relaxedAutoImplicit false

namespace TreePass

/-- One use of a builder of configurations. -/
inductive Install (η : Type)
  | handler (slot : Slot) (handler : η)
  | call (identity : Identity) (handler : η)
  | topdown (identity : Identity) (handler : η)

namespace Install

variable {η : Type}

def added : Install η → η
  | handler _ h | call _ h | topdown _ h => h

def forSlot? (slot : Slot) : Install η → Option η
  | handler other h => if other = slot then some h else none
  | _ => none

def forTarget? (slot : Slot) (identity : Identity) : Install η → Option η
  | call other h => if slot = .call ∧ other = identity then some h else none
  | topdown other h => if slot = .topdown ∧ other = identity then some h else none
  | handler _ _ => none

theorem added_of_forSlot? (slot : Slot) {i : Install η} {h : η} (found : i.forSlot? slot = some h) :
    i.added = h := by
  cases i with
  | handler other given =>
    simp only [forSlot?] at found
    split at found
    · exact Option.some.inj found
    · cases found
  | call | topdown => cases found

theorem added_of_forTarget? (slot : Slot) (identity : Identity) {i : Install η} {h : η}
    (found : i.forTarget? slot identity = some h) : i.added = h := by
  cases i with
  | handler => cases found
  | call other given =>
    simp only [forTarget?] at found
    split at found
    · exact Option.some.inj found
    · cases found
  | topdown other given =>
    simp only [forTarget?] at found
    split at found
    · exact Option.some.inj found
    · cases found

def target? : Install η → Option Identity
  | call identity _ | topdown identity _ => some identity
  | handler _ _ => none

end Install

namespace Config

variable {η : Type}

def apply (config : Config η) : Install η → Config η
  | .handler slot h => config.install slot h
  | .call identity h => config.addCall identity h
  | .topdown identity h => config.addTopdown identity h

/-- The configuration that uses of the builders give, the last use first. -/
def built (mode : Mode) : List (Install η) → Config η
  | [] => standard mode
  | last :: earlier => (built mode earlier).apply last

end Config

/-- The handlers of a slot, newest first, above the standard handler of the mode. -/
def genericChain {η : Type} (mode : Mode) (installs : List (Install η)) (slot : Slot) :
    List (Link η) :=
  (installs.filterMap (Install.forSlot? slot)).map .installed ++
    [.standard (Standard.ofSlot mode slot)]

def targetHandlers {η : Type} (installs : List (Install η)) (slot : Slot)
    (target : Option Identity) : List (Link η) :=
  match target with
  | some identity => (installs.filterMap (Install.forTarget? slot identity)).map .installed
  | none => []

def isTargeted {η : Type} (installs : List (Install η)) (identity : Identity) : Bool :=
  installs.any fun i => i.target? == some identity

/-- Whether a handler for some target is installed. -/
def anyTargeted {η : Type} (installs : List (Install η)) : Bool :=
  installs.any fun i => i.target?.isSome

namespace Targets

variable {η : Type}

theorem find?_add (targets : Targets η) (identity other : Identity) (handler : η) :
    (targets.add identity handler).find? other =
      if other = identity then some (handler :: (targets.find? identity).getD [])
      else targets.find? other := by
  induction targets with
  | nil =>
    by_cases same : other = identity
    · simp [add, find?, same]
    · have different : (other == identity) = false := by simpa using same
      simp [add, find?, List.lookup_cons, same, different]
  | cons entry rest ih =>
    obtain ⟨known, chain⟩ := entry
    simp only [find?] at ih ⊢
    by_cases first : known = identity
    · by_cases same : other = identity
      · simp [add, first, same]
      · have different : (other == identity) = false := by simpa using same
        simp [add, List.lookup_cons, first, same, different]
    · have notFirst : (identity == known) = false := by simpa using Ne.symm first
      by_cases here : other = known
      · simp [add, first, here]
      · have notHere : (other == known) = false := by simpa using here
        simp only [add, first, ↓reduceIte, List.lookup_cons, notHere, notFirst, ih]

private theorem isEmpty_add (targets : Targets η) (identity : Identity) (handler : η) :
    (targets.add identity handler).isEmpty = false := by
  cases targets with
  | nil => rfl
  | cons entry rest =>
    obtain ⟨known, chain⟩ := entry
    simp only [add]
    split <;> rfl

end Targets

namespace Config

variable {η : Type} (mode : Mode) (installs : List (Install η))

@[simp] theorem built_mode : (built mode installs).mode = mode := by
  induction installs with
  | nil => rfl
  | cons last earlier ih => cases last <;> exact ih

private theorem built_installed (slot : Slot) :
    (built mode installs).installed slot = installs.filterMap (Install.forSlot? slot) := by
  induction installs with
  | nil => rfl
  | cons last earlier ih =>
    cases last with
    | handler other h =>
      by_cases same : other = slot
      · simp [built, apply, install, Install.forSlot?, same, ih]
      · simp [built, apply, install, Install.forSlot?, same, Ne.symm same, ih]
    | call | topdown => exact ih

theorem built_chain (slot : Slot) :
    (built mode installs).chain slot = genericChain mode installs slot := by
  rw [chain, built_installed, built_mode, genericChain]

private theorem built_targets (slot : Slot) (identity : Identity) :
    (((built mode installs).targetsOrNone slot).find? identity).getD [] =
      installs.filterMap (Install.forTarget? slot identity) := by
  induction installs with
  | nil => cases slot <;> rfl
  | cons last earlier ih =>
    rw [List.filterMap_cons]
    cases last with
    | handler other h => cases slot <;> exact ih
    | call other h =>
      cases slot with
      | call =>
        simp only [targetsOrNone, built, apply, addCall, Targets.find?_add] at ih ⊢
        by_cases same : other = identity
        · simp [Install.forTarget?, same, ih]
        · simp [Install.forTarget?, same, Ne.symm same, ih]
      | atomic | symbol | primitive | pairlist | topdown => exact ih
    | topdown other h =>
      cases slot with
      | topdown =>
        simp only [targetsOrNone, built, apply, addTopdown, Targets.find?_add] at ih ⊢
        by_cases same : other = identity
        · simp [Install.forTarget?, same, ih]
        · simp [Install.forTarget?, same, Ne.symm same, ih]
      | atomic | symbol | primitive | pairlist | call => exact ih

theorem built_fullChain (slot : Slot) (target : Option Identity) :
    (built mode installs).fullChain slot target =
      targetHandlers installs slot target ++ genericChain mode installs slot := by
  cases target with
  | none =>
    rw [fullChain, built_chain]
    rfl
  | some identity =>
    simp only [fullChain, built_chain, built_targets]
    rfl

theorem built_isRegistered (identity : Identity) :
    (built mode installs).isRegistered identity = isTargeted installs identity := by
  induction installs with
  | nil => rfl
  | cons last earlier ih =>
    simp only [isRegistered, isTargeted, List.any_cons] at ih ⊢
    cases last with
    | handler slot h => exact ih
    | call other h =>
      simp only [built, apply, addCall, Targets.find?_add]
      by_cases same : identity = other
      · simp [Install.target?, same]
      · have different : ((Install.call other h).target? == some identity) = false := by
          simpa [Install.target?] using Ne.symm same
        rw [if_neg same, ih, different, Bool.false_or]
    | topdown other h =>
      simp only [built, apply, addTopdown, Targets.find?_add]
      by_cases same : identity = other
      · simp [Install.target?, same]
      · have different : ((Install.topdown other h).target? == some identity) = false := by
          simpa [Install.target?] using Ne.symm same
        rw [if_neg same, ih, different, Bool.false_or]

theorem built_hasTargets : (built mode installs).hasTargets = anyTargeted installs := by
  induction installs with
  | nil => rfl
  | cons last earlier ih =>
    simp only [hasTargets, anyTargeted, List.any_cons] at ih ⊢
    cases last with
    | handler slot h => exact ih
    | call other h => simp [built, apply, addCall, Targets.isEmpty_add, Install.target?]
    | topdown other h => simp [built, apply, addTopdown, Targets.isEmpty_add, Install.target?]

theorem targetHandlers_eq_nil {identity : Identity} (slot : Slot)
    (absent : isTargeted installs identity = false) :
    targetHandlers installs slot (some identity) = [] := by
  simp only [isTargeted, List.any_eq_false, beq_iff_eq] at absent
  have none_given : installs.filterMap (Install.forTarget? slot identity) = [] := by
    rw [List.filterMap_eq_nil_iff]
    intro i member
    have other := absent i member
    cases i with
    | handler slot' h => rfl
    | call known h =>
      simp only [Install.target?, Option.some.injEq] at other
      simp [Install.forTarget?, other]
    | topdown known h =>
      simp only [Install.target?, Option.some.injEq] at other
      simp [Install.forTarget?, other]
  simp only [targetHandlers, none_given, List.map_nil]

end Config

end TreePass
