import TreePass.Function
import TreePass.Scoping.Policy
import TreePass.Traversal

/-!
Scope analysis. Each function scope is first collected by an analysis of its parameter defaults
and its body, then stamped on every node that belongs to it; function literals inside open scopes
of their own.
-/

set_option autoImplicit false
set_option relaxedAutoImplicit false

namespace TreePass

namespace Policy

variable {σ : Type}

/-- Goes down the first arguments to what an assignment to a part finally changes. -/
def innermost : Expr → Expr
  | .call _ _ ((_, first) :: _) => innermost first
  | node => node

/-- The name a call binds in the scope it stands in. -/
def boundName? (policy : Policy) (node : Expr) : Option String :=
  match node with
  | .call _ _ ((_, target) :: _) =>
    if node.isCallTo policy.loopForms then target.symbolName?
    else if node.isCallTo policy.assignmentForms then
      if policy.countReplacementTargets then (innermost target).symbolName?
      else target.symbolName?
    else none
  | _ => none

/-- Function literals and calls that evaluate elsewhere hide what they assign. -/
def isOpaque (policy : Policy) (node : Expr) : Bool :=
  node.isCallTo (policy.functionForm :: policy.nseFunctions)

def assignedKey : String := "assigned"

def skipOpaque (policy : Policy) : Handler σ := fun node ctx =>
  if policy.isOpaque node then ctx.skip (.map []) else ctx.callNext node

def recordBinding (policy : Policy) : Handler σ := fun node ctx => do
  let found ← ctx.callNext node
  match policy.boundName? node with
  | none => return found
  | some name => do
    let own : Value := .map [(some assignedKey, .ofNames [name])]
    let merged ← Action.ofExcept (mergeResults [own, found])
    return .map merged.entries

def collection (policy : Policy) : Traversal σ where
  config := ((Config.standard .analyse).install .topdown policy.skipOpaque).install .call
    policy.recordBinding
  flags := ⟨.bool false, .bool false⟩
  env := none
  params := []

def texts (values : List Value) : List String :=
  values.filterMap fun
    | .str text => some text
    | _ => none

def assignedIn (policy : Policy) (params body : Expr) : Action σ NameSet := do
  let fromParams ← policy.collection.analyse .none Scope.empty params
  let fromBody ← policy.collection.analyse .none Scope.empty body
  return NameSet.ofNames (texts ((merge [fromParams, fromBody]).find assignedKey))

/-- The scope of one function: what it assigns, and with that its parameters and all that the
enclosing scope binds. -/
def collect (policy : Policy) (params body : Expr) (enclosing : NameSet) : Action σ Scope := do
  let assigned ← policy.assignedIn params body
  match params.paramNames? with
  | none => Action.fail .missingMember
  | some names => do
    let bound := NameSet.union assigned (NameSet.union (NameSet.ofNames names) enclosing)
    Action.newScope assigned bound

def literalParts? (policy : Policy) (node : Expr) : Option (Option Expr × Expr) :=
  if node.isCallTo [policy.functionForm] then
    match node with
    | .call _ _ ((_, params) :: (_, body) :: _) =>
      if params.isPairlist then some (some params, body) else none
    | .call _ _ [(_, body)] => if body.isPairlist then none else some (none, body)
    | _ => none
  else none

def literalScope (policy : Policy) (info : Scope) (params : Option Expr) (body : Expr) :
    Action σ (Expr → Scope) := do
  let list ←
    match params with
    | some list => pure list
    | none => Node.newPairlist []
  let inner ← policy.collect list body info.bound
  Action.note (.nestedScope inner.assigned inner.bound)
  return fun child => if child.same list || child.same body then inner else info

def childScopes (policy : Policy) (info : Scope) (node : Expr) : Action σ (Expr → Scope) :=
  match policy.literalParts? node with
  | none => pure fun _ => info
  | some (params, body) => policy.literalScope info params body

mutual

/-- Stamps a scope on a node and all below it, opening new scopes at function literals. -/
def stamp (policy : Policy) (info : Scope) : Node Value → Action σ Unit
  | .call tag callee args => do
    Action.setMetadata tag Node.scopeKey (.scope info)
    let scopes ← policy.childScopes info (.call tag callee args)
    stamp policy (scopes callee) callee
    stampArgs policy scopes args
  | .pairlist tag params => do
    Action.setMetadata tag Node.scopeKey (.scope info)
    stampParams policy info params
  | .atomic tag _ | .symbol tag _ | .primitive tag _ =>
    Action.setMetadata tag Node.scopeKey (.scope info)

def stampArgs (policy : Policy) (scopes : Expr → Scope) :
    List (Option String × Node Value) → Action σ Unit
  | [] => pure ()
  | (_, a) :: rest => do
    stamp policy (scopes a) a
    stampArgs policy scopes rest

def stampParams (policy : Policy) (info : Scope) :
    List (String × Option (Node Value)) → Action σ Unit
  | [] => pure ()
  | (_, none) :: rest => stampParams policy info rest
  | (_, some d) :: rest => do
    stamp policy info d
    stampParams policy info rest

end

/-- Annotates a copy of a function; whatever scopes its nodes had before are replaced. -/
def annotate (policy : Policy) (fn : Function) : Action σ Function := do
  let params ← fn.params.clone
  let body ← fn.body.clone
  let info ← policy.collect params body []
  Action.note (.scopeOf fn.name info.assigned info.bound)
  policy.stamp info params
  policy.stamp info body
  return { fn with params := params, body := body, scope := some info }

end Policy

end TreePass
