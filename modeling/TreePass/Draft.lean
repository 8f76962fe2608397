import TreePass.Node.Build

/-!
Drafts: descriptions of values from which new nodes and new scopes are made each time.
-/

set_option autoImplicit false
set_option relaxedAutoImplicit false

namespace TreePass

/-- A description of a value; the nodes in it carry their metadata. -/
inductive Draft
  | plain (value : Value)
  | list (items : List Draft)
  | tuple (items : List Draft)
  | map (entries : List (Option String × Draft))
  | scope (assigned bound : List String)
  | atomic (metadata : List (String × Draft)) (value : Draft)
  | symbol (metadata : List (String × Draft)) (name : String)
  | primitive (metadata : List (String × Draft)) (ref : Identity)
  | pairlist (metadata : List (String × Draft)) (params : List (String × Option Draft))
  | call (metadata : List (String × Draft)) (callee : Draft) (args : List Draft)
      (names : List (Option String))

open Number (Binary64)

namespace Draft

variable {σ : Type}

instance : Inhabited Draft := ⟨.plain .none⟩

def asNode (value : Value) : Action σ Expr :=
  match value with
  | .node n => pure n
  | _ => Action.fail .wrongOperand

def furnish (node : Expr) : Table → Action σ Expr
  | [] => pure node
  | (key, value) :: rest => do
    node.setMetadata key value
    furnish node rest

def renewNumber : Binary64 → Action σ Binary64
  | .nan _ => do return .nan (← Action.allocate [])
  | number => pure number

def renew : Value → Action σ Value
  | .float x => do return .float (← renewNumber x)
  | .complex re im => do return .complex (← renewNumber re) (← renewNumber im)
  | value => pure value

mutual

/-- Makes the value a draft describes, with new nodes and scopes. -/
def build : Draft → Action σ Value
  | plain value => renew value
  | list items => do return .list (← buildAll items)
  | tuple items => do return .tuple (← buildAll items)
  | map entries => do return .map (Entries.ofPairs (← buildEntries entries))
  | scope assigned bound => do
    return .scope (← Action.newScope (NameSet.ofNames assigned) (NameSet.ofNames bound))
  | atomic metadata value => do
    let node ← Node.newAtomic (← build value)
    return .node (← furnish node (← buildTable metadata))
  | symbol metadata name => do
    let node ← Node.newSymbol name
    return .node (← furnish node (← buildTable metadata))
  | primitive metadata ref => do
    let node ← Node.newPrimitive ref
    return .node (← furnish node (← buildTable metadata))
  | pairlist metadata params => do
    let node ← Node.newPairlist (← buildParams params)
    return .node (← furnish node (← buildTable metadata))
  | call metadata callee args names => do
    let callee ← asNode (← build callee)
    let args ← (← buildAll args).mapM asNode
    let node ← Node.newCall callee args names
    return .node (← furnish node (← buildTable metadata))

def buildAll : List Draft → Action σ (List Value)
  | [] => pure []
  | draft :: rest => do
    let value ← build draft
    return value :: (← buildAll rest)

def buildEntries : List (Option String × Draft) → Action σ Entries
  | [] => pure []
  | (key, draft) :: rest => do
    let value ← build draft
    return (key, value) :: (← buildEntries rest)

def buildTable : List (String × Draft) → Action σ Table
  | [] => pure []
  | (key, draft) :: rest => do
    let value ← build draft
    return (key, value) :: (← buildTable rest)

def buildParams : List (String × Option Draft) → Action σ (List (String × Option Expr))
  | [] => pure []
  | (name, none) :: rest => do return (name, none) :: (← buildParams rest)
  | (name, some draft) :: rest => do
    let node ← asNode (← build draft)
    return (name, some node) :: (← buildParams rest)

end

def buildNode (draft : Draft) : Action σ Expr := do asNode (← draft.build)

end Draft

end TreePass
