import TreePass.Fault

/-!
Configurations: which handlers run at which slot. Installing a handler puts it in front of the
ones installed before; below all of them stands the standard handler of the mode. Calls and the
way down into them may also have handlers for single targets.
-/

set_option autoImplicit false
set_option relaxedAutoImplicit false

namespace TreePass

inductive Standard
  /-- Returns the node it gets. -/
  | keepNode
  /-- Contributes nothing. -/
  | emptyAnalysis
  /-- Merges the results of the children. -/
  | mergeAnalysis
  /-- Hands on what came from above. -/
  | passTopdown
  deriving DecidableEq

namespace Standard

def label : Standard → String
  | keepNode => "identity_rewrite_handler"
  | emptyAnalysis => "empty_analysis_handler"
  | mergeAnalysis => "merge_analysis_handler"
  | passTopdown => "passthrough_topdown_handler"

def all : List Standard := [keepNode, emptyAnalysis, mergeAnalysis, passTopdown]

def ofLabel? (text : String) : Option Standard := all.find? fun handler => handler.label == text

def ofSlot : Mode → Slot → Standard
  | _, .topdown => passTopdown
  | .transform, _ => keepNode
  | .analyse, .pairlist => mergeAnalysis
  | .analyse, .call => mergeAnalysis
  | .analyse, _ => emptyAnalysis

end Standard

inductive Link (η : Type)
  | standard (handler : Standard)
  | installed (handler : η)

abbrev Targets (η : Type) := List (Identity × List η)

namespace Targets

variable {η : Type}

def add (identity : Identity) (handler : η) : Targets η → Targets η
  | [] => [(identity, [handler])]
  | (other, chain) :: rest =>
    if other = identity then (other, handler :: chain) :: rest
    else (other, chain) :: add identity handler rest

def find? (targets : Targets η) (identity : Identity) : Option (List η) :=
  targets.lookup identity

end Targets

/-- An immutable configuration over handlers of type `η`. -/
structure Config (η : Type) where
  mode : Mode
  installed : Slot → List η
  callTargets : Targets η
  topdownTargets : Targets η

namespace Config

variable {η : Type}

def standard (mode : Mode) : Config η := ⟨mode, fun _ => [], [], []⟩

def install (config : Config η) (slot : Slot) (handler : η) : Config η :=
  { config with
    installed := fun other =>
      if other = slot then handler :: config.installed other else config.installed other }

def addCall (config : Config η) (identity : Identity) (handler : η) : Config η :=
  { config with callTargets := config.callTargets.add identity handler }

/-- Installs a handler for the way down into calls to one target. -/
def addTopdown (config : Config η) (identity : Identity) (handler : η) : Config η :=
  { config with topdownTargets := config.topdownTargets.add identity handler }

/-- The chain of a slot, newest first, ending in the standard handler. -/
def chain (config : Config η) (slot : Slot) : List (Link η) :=
  (config.installed slot).map .installed ++ [.standard (Standard.ofSlot config.mode slot)]

def targets (config : Config η) : Slot → Except Fault (Targets η)
  | .call => .ok config.callTargets
  | .topdown => .ok config.topdownTargets
  | slot => .error (.noTargets slot)

def targetsOrNone (config : Config η) : Slot → Targets η
  | .call => config.callTargets
  | .topdown => config.topdownTargets
  | _ => []

def targetChain? (config : Config η) (slot : Slot) (identity : Identity) :
    Except Fault (Option (List η)) :=
  (config.targets slot).map fun targets => targets.find? identity

def hasTargets (config : Config η) : Bool :=
  !config.callTargets.isEmpty || !config.topdownTargets.isEmpty

def isRegistered (config : Config η) (identity : Identity) : Bool :=
  (config.callTargets.find? identity).isSome || (config.topdownTargets.find? identity).isSome

/-- The chain that runs at a node: handlers of the resolved target, then the slot's own. -/
def fullChain (config : Config η) (slot : Slot) (target : Option Identity) : List (Link η) :=
  let special :=
    match target with
    | some identity => ((config.targetsOrNone slot).find? identity).getD []
    | none => []
  special.map .installed ++ config.chain slot

end Config

def Slot.ofValue (value : Value) : Except Fault Slot :=
  let found :=
    match value with
    | .str text => Slot.ofLabel? text
    | _ => none
  match found with
  | some slot => .ok slot
  | none => .error (.unknownSlot value.display)

def Mode.ofValue (value : Value) : Except Fault Mode :=
  let found :=
    match value with
    | .str text => Mode.ofLabel? text
    | _ => none
  match found with
  | some mode => .ok mode
  | none => .error (.notAMember value.text "TraversalMode")

def Slot.ofMember (text : String) : Except Fault Slot :=
  match Slot.ofLabel? text with
  | some slot => .ok slot
  | none => .error (.notAMember (Text.Quoted.quote text) "HandlerSlot")

def Slot.ofKindMember (text : String) : Except Fault Slot :=
  match Kind.ofLabel? text with
  | some kind => .ok (Slot.ofKind kind)
  | none => .error (.notAMember (Text.Quoted.quote text) "NodeKind")

end TreePass
