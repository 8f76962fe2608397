import TreePass.Handler.Context

/-!
Traversals. A leaf is handed to the chain of its shape. At a call or a parameter list the topdown
chain runs first; what it returns goes down to the children, and a skip in it ends the visit. Then
the children are visited from left to right and the chain of the shape runs last. The children of
a call are its arguments: the callee is consulted only to find handlers for single targets.
-/

set_option autoImplicit false
set_option relaxedAutoImplicit false

namespace TreePass

/-- The parameters of a traversal. -/
structure Traversal (σ : Type) where
  config : Config (Handler σ)
  flags : Flags
  env : Option Environment
  params : Table

/-- The shape of results: how a node is readied for its chain and which results are accepted. -/
structure Shape (σ ρ : Type) where
  /-- The node that the chain of a leaf gets. -/
  leaf : Expr → Action σ Expr
  /-- The node that the chain of a composite gets, from the results of its children. -/
  composite : Expr → List ρ → Action σ Expr
  /-- What handlers see of the results of the children. -/
  bottomup : List ρ → Option (List Value)
  /-- Takes a handler's result, if it has the right shape; the node is the one made for the
  chain, if one was. -/
  accept : Option Expr → Value → Option (Action σ ρ)

namespace Shape

variable {σ : Type}

/-- In an analysis handlers see the tree itself and return maps. -/
def analysis : Shape σ Entries where
  leaf node := pure node
  composite node _ := pure node
  bottomup results := some (results.map .map)
  accept _ value := value.entries?.map pure

/-- Puts transformed children into a copy of a composite node; the callee is copied. -/
def rebuild (node : Expr) (fresh : List Expr) : Action σ Expr :=
  match node with
  | .call _ callee _ => do
    let callee ← callee.clone
    node.withChildren (callee :: fresh)
  | _ => node.withChildren fresh

/-- In a transformation handlers see a new node and return nodes. Anything but that new node may be
shared with another tree, so it is copied. -/
def transforming : Shape σ Expr where
  leaf node := node.clone
  composite := rebuild
  bottomup _ := none
  accept fresh value :=
    value.node?.map fun node =>
      match fresh with
      | some made => if node.same made then pure made else node.clone
      | none => node.clone

end Shape

namespace Traversal

variable {σ ρ : Type}

def mode (t : Traversal σ) : Mode := t.config.mode

def warn (t : Traversal σ) (warning : Warning) : Action σ Unit :=
  if t.flags.isOn warning.flag then Action.warn warning else pure ()

def lookup (t : Traversal σ) (name : String) : Option Identity :=
  t.env.bind fun env => env.find? name

def dispatch (t : Traversal σ) (identity : Identity) : Action σ (Option Identity) :=
  if t.config.isRegistered identity then do
    Action.note (.dispatch identity)
    return some identity
  else pure none

/-- The target whose handlers run at a call. A variable that may be bound locally has none, and
neither has one that the environment does not know. -/
def resolve (t : Traversal σ) (callee : Expr) (scope : Value) : Action σ (Option Identity) :=
  if t.config.hasTargets then
    match callee with
    | .primitive _ ref => t.dispatch ref
    | .symbol _ name => do
      let found := t.lookup name
      if ← Action.ofExcept (scope.isBound name) then
        if (found.map t.config.isRegistered).getD false then
          Action.note (.suppressed name)
          t.warn (.localShadow name)
        return none
      else
        match found with
        | some identity => t.dispatch identity
        | none => do
          Action.note (.notFound name)
          t.warn (.unknownCallee name)
          return none
    | _ => pure none
  else pure none

/-- Runs a chain on a node: each handler can run the rest of the chain. -/
def invoke (ctx : Context σ) : List (Link (Handler σ)) → Expr → Action σ Value
  | [], _ => Action.fail .wrongOperand
  | [link], node => link.run node { ctx with next := none }
  | link :: rest, node => link.run node { ctx with next := some (invoke ctx rest) }

def context (t : Traversal σ) (topdown scope : Value) (bottomup : Option (List Value))
    (visit : Option Nat) : Context σ where
  mode := t.mode
  topdown := topdown
  bottomup := bottomup
  scope := scope
  flags := t.flags
  env := t.env
  params := t.params
  next := none
  visit := visit

/-- Takes the result of a chain, which must have the shape of the mode. -/
def finish (t : Traversal σ) (shape : Shape σ ρ) (slot : Slot) (kind : Kind) (made : Option Expr)
    (value : Value) : Action σ ρ :=
  match shape.accept made value with
  | some result => result
  | none => Action.fail (.handlerResult slot kind t.mode value.typeName)

def scopeAt (node : Expr) (inherited : Value) : Action σ Value := do
  return (← node.scope?).getD inherited

def visitLeaf (t : Traversal σ) (shape : Shape σ ρ) (topdown inherited : Value) (node : Expr) :
    Action σ ρ := do
  let scope ← scopeAt node inherited
  let slot := Slot.ofKind node.kind
  let made ← shape.leaf node
  let value ← invoke (t.context topdown scope (shape.bottomup []) none)
    (t.config.fullChain slot none) made
  t.finish shape slot node.kind (some made) value

/-- The way down into a composite: the topdown chain with the right to skip this visit. -/
def descend (t : Traversal σ) (target : Option Identity) (topdown scope : Value) (node : Expr) :
    Action σ (Action.Outcome Value) := do
  let visit ← Action.newVisit
  Action.catchSkip visit
    (invoke (t.context topdown scope none (some visit)) (t.config.fullChain .topdown target) node)

def endSkipped (t : Traversal σ) (shape : Shape σ ρ) (node : Expr) (value : Value) :
    Action σ ρ := do
  Action.note (.skipped node.kind)
  t.finish shape .topdown node.kind none value

/-- The way up out of a composite: the chain of its shape, over the results of its children. -/
def ascend (t : Traversal σ) (shape : Shape σ ρ) (target : Option Identity)
    (inner scope : Value) (node : Expr) (results : List ρ) : Action σ ρ := do
  let slot := Slot.ofKind node.kind
  let made ← shape.composite node results
  let value ← invoke (t.context inner scope (shape.bottomup results) none)
    (t.config.fullChain slot target) made
  t.finish shape slot node.kind (some made) value

mutual

/-- Visits a node with the topdown value and the scope inherited from above. -/
def visit (t : Traversal σ) (shape : Shape σ ρ) (topdown inherited : Value) :
    Node Value → Action σ ρ
  | .call tag callee args => do
    let node : Expr := .call tag callee args
    let scope ← scopeAt node inherited
    let target ← t.resolve callee scope
    match ← t.descend target topdown scope node with
    | .skipped value => t.endSkipped shape node value
    | .done inner => do
      let results ← visitArgs t shape inner scope args
      t.ascend shape target inner scope node results
  | .pairlist tag params => do
    let node : Expr := .pairlist tag params
    let scope ← scopeAt node inherited
    match ← t.descend none topdown scope node with
    | .skipped value => t.endSkipped shape node value
    | .done inner => do
      let results ← visitParams t shape inner scope params
      t.ascend shape none inner scope node results
  | .atomic tag value => t.visitLeaf shape topdown inherited (.atomic tag value)
  | .symbol tag name => t.visitLeaf shape topdown inherited (.symbol tag name)
  | .primitive tag ref => t.visitLeaf shape topdown inherited (.primitive tag ref)

def visitArgs (t : Traversal σ) (shape : Shape σ ρ) (topdown inherited : Value) :
    List (Option String × Node Value) → Action σ (List ρ)
  | [] => pure []
  | (_, a) :: rest => do
    let result ← visit t shape topdown inherited a
    return result :: (← visitArgs t shape topdown inherited rest)

def visitParams (t : Traversal σ) (shape : Shape σ ρ) (topdown inherited : Value) :
    List (String × Option (Node Value)) → Action σ (List ρ)
  | [] => pure []
  | (_, none) :: rest => visitParams t shape topdown inherited rest
  | (_, some d) :: rest => do
    let result ← visit t shape topdown inherited d
    return result :: (← visitParams t shape topdown inherited rest)

end

/-- The topdown value a traversal starts with: nothing given means an empty map. -/
def startValue : Value → Value
  | .none => .map []
  | value => value

/-- Runs an analysis over an expression. -/
def analyse (t : Traversal σ) (topdown : Value) (scope : Scope) (expr : Expr) :
    Action σ Entries :=
  t.visit .analysis (startValue topdown) (.scope scope) expr

/-- Runs a transformation over an expression. -/
def transform (t : Traversal σ) (topdown : Value) (scope : Scope) (expr : Expr) : Action σ Expr :=
  t.visit .transforming (startValue topdown) (.scope scope) expr

end Traversal

end TreePass
