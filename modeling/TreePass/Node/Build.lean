import TreePass.Action

/-!
Making nodes. Every new node gets a tag of its own; a node made from another one starts with a
copy of that one's metadata.
-/

set_option autoImplicit false
set_option relaxedAutoImplicit false

namespace TreePass

namespace Node

variable {σ : Type}

def newAtomic (value : Value) : Action σ Expr := do
  return .atomic (← Action.allocate []) value

def newSymbol (name : String) : Action σ Expr := do
  return .symbol (← Action.allocate []) name

def newPrimitive (ref : Identity) : Action σ Expr := do
  return .primitive (← Action.allocate []) ref

def newPairlist (params : List (String × Option Expr)) : Action σ Expr := do
  return .pairlist (← Action.allocate []) params

/-- A new call. An empty list of names leaves all arguments unnamed. -/
def newCall (callee : Expr) (args : List Expr) (names : List (Option String)) :
    Action σ Expr := do
  if names.isEmpty then
    return .call (← Action.allocate []) callee (args.map (none, ·))
  else if names.length = args.length then
    return .call (← Action.allocate []) callee (names.zip args)
  else
    Action.fail (.nameCount args.length names.length)

def copyTag (tag : Tag) : Action σ Tag := do
  Action.allocate (← Action.metadata tag)

/-- A node of the same shape with other children, which must be as many as before. -/
def withChildren (node : Expr) (fresh : List Expr) : Action σ Expr :=
  match node with
  | .pairlist tag params =>
    if fresh.length = (defaults params).length then do
      return .pairlist (← copyTag tag) (refillParams params fresh)
    else Action.fail (.defaultCount (defaults params).length fresh.length)
  | .call tag _ args =>
    match fresh with
    | callee :: rest =>
      if rest.length = args.length then do
        return .call (← copyTag tag) callee (refillArgs args rest)
      else Action.fail (.childCount (args.length + 1) fresh.length)
    | [] => Action.fail (.childCount (args.length + 1) 0)
  | .atomic tag value =>
    if fresh.isEmpty then do return .atomic (← copyTag tag) value
    else Action.fail (.leafChildren .atomic)
  | .symbol tag name =>
    if fresh.isEmpty then do return .symbol (← copyTag tag) name
    else Action.fail (.leafChildren .symbol)
  | .primitive tag ref =>
    if fresh.isEmpty then do return .primitive (← copyTag tag) ref
    else Action.fail (.leafChildren .primitive)

/-- A call with the same callee and argument names and other arguments. -/
def withArgs (node : Expr) (fresh : List Expr) : Action σ Expr :=
  match node with
  | .call _ callee _ => node.withChildren (callee :: fresh)
  | _ => Action.fail .missingMember

mutual

/-- A copy in which every position holds a new node. -/
def clone : Node Value → Action σ (Node Value)
  | .atomic tag value => do return .atomic (← copyTag tag) value
  | .symbol tag name => do return .symbol (← copyTag tag) name
  | .primitive tag ref => do return .primitive (← copyTag tag) ref
  | .pairlist tag params => do
    let params ← cloneParams params
    return .pairlist (← copyTag tag) params
  | .call tag callee args => do
    let callee ← clone callee
    let args ← cloneArgs args
    return .call (← copyTag tag) callee args

def cloneParams :
    List (String × Option (Node Value)) → Action σ (List (String × Option (Node Value)))
  | [] => pure []
  | (name, none) :: rest => do return (name, none) :: (← cloneParams rest)
  | (name, some d) :: rest => do
    let d ← clone d
    return (name, some d) :: (← cloneParams rest)

def cloneArgs :
    List (Option String × Node Value) → Action σ (List (Option String × Node Value))
  | [] => pure []
  | (name, a) :: rest => do
    let a ← clone a
    return (name, a) :: (← cloneArgs rest)

end

mutual

/-- A copy in which every position holds a new node without metadata. -/
def plant : Node Value → Action σ (Node Value)
  | .atomic _ value => newAtomic value
  | .symbol _ name => newSymbol name
  | .primitive _ ref => newPrimitive ref
  | .pairlist _ params => do newPairlist (← plantParams params)
  | .call _ callee args => do
    let callee ← plant callee
    let args ← plantArgs args
    return .call (← Action.allocate []) callee args

def plantParams :
    List (String × Option (Node Value)) → Action σ (List (String × Option (Node Value)))
  | [] => pure []
  | (name, none) :: rest => do return (name, none) :: (← plantParams rest)
  | (name, some d) :: rest => do
    let d ← plant d
    return (name, some d) :: (← plantParams rest)

def plantArgs :
    List (Option String × Node Value) → Action σ (List (Option String × Node Value))
  | [] => pure []
  | (name, a) :: rest => do
    let a ← plant a
    return (name, a) :: (← plantArgs rest)

end

def metadata? (node : Expr) (key : String) : Action σ (Option Value) := do
  return (← Action.metadata node.tag).find? key

def setMetadata (node : Expr) (key : String) (value : Value) : Action σ Unit :=
  Action.setMetadata node.tag key value

def scopeKey : String := "scope"

/-- What is stored as a node's scope; an empty value counts as no scope. -/
def scope? (node : Expr) : Action σ (Option Value) := do
  match ← node.metadata? scopeKey with
  | some .none => return none
  | found => return found

end Node

end TreePass
