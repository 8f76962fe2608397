import TreePass.Console.Tree
import TreePass.Function
import TreePass.Node.Build
import TreePass.Number.Numeral
import TreePass.Value.Printer

/-!
The outline of a function: its tree with one line a node. A node whose scope is another one than
that of the node above it shows the names assigned and bound there.
-/

set_option autoImplicit false
set_option relaxedAutoImplicit false

namespace TreePass

/-- Whether a value is an integer with more digits than can be written. -/
def Value.isLong : Value → Bool
  | .int i => Nat.pow 10 Number.Numeral.maxDigits ≤ i.natAbs
  | _ => false

mutual

def Node.holdsLong : Node Value → Bool
  | .atomic _ value => value.isLong
  | .symbol _ _ | .primitive _ _ => false
  | .pairlist _ params => paramsHoldLong params
  | .call _ callee args => Node.holdsLong callee || argsHoldLong args

def paramsHoldLong : List (String × Option (Node Value)) → Bool
  | [] => false
  | (_, none) :: rest => paramsHoldLong rest
  | (_, some d) :: rest => Node.holdsLong d || paramsHoldLong rest

def argsHoldLong : List (Option String × Node Value) → Bool
  | [] => false
  | (_, a) :: rest => Node.holdsLong a || argsHoldLong rest

end

namespace Outline

open Console (Tree)
open Console.Markup (escape)

variable {σ : Type}

def label : Expr → String
  | .atomic _ value => "atomic [dim]" ++ escape value.text ++ "[/dim]"
  | .symbol _ name => "symbol [symbol]" ++ escape name ++ "[/symbol]"
  | .primitive _ ref => "primitive [symbol]" ++ escape ref.name ++ "[/symbol]"
  | .pairlist _ params => "pairlist (" ++ escape (", ".intercalate (params.map (·.1))) ++ ")"
  | .call tag callee args =>
    let name :=
      match (Node.call tag callee args : Expr).calleeName? with
      | some "" | none => "<expr>"
      | some name => name
    "call [symbol]" ++ escape name ++ "[/symbol]"

def scopeLabel (scope : Scope) : String :=
  "[scope]scope[/scope] assigned=" ++ escape (Text.Quoted.nameList scope.assigned) ++
    " bound=" ++ escape (Text.Quoted.nameList scope.bound)

/-- The scope of a node; anything else stored in its place has no sets to show. -/
def scopeOf (node : Expr) : Action σ (Option Scope) := do
  match ← node.scope? with
  | none => return none
  | some (.scope s) => return some s
  | some _ => Action.fail .missingMember

def labelWithin (outer own : Option Scope) (node : Expr) : String :=
  match own with
  | none => label node
  | some s =>
    if outer.map Scope.tag = some s.tag then label node
    else label node ++ "  " ++ scopeLabel s

mutual

def ofNode (outer : Option Scope) : Node Value → Action σ Tree
  | .pairlist tag params => do
    let node : Expr := .pairlist tag params
    let own ← scopeOf node
    return .node (labelWithin outer own node) (← ofParams own params)
  | .call tag callee args => do
    let node : Expr := .call tag callee args
    let own ← scopeOf node
    let first ← ofNode own callee
    return .node (labelWithin outer own node) (first :: (← ofArgs own args))
  | node => do
    return .node (labelWithin outer (← scopeOf node) node) []

def ofParams (outer : Option Scope) :
    List (String × Option (Node Value)) → Action σ (List Tree)
  | [] => pure []
  | (_, none) :: rest => ofParams outer rest
  | (_, some d) :: rest => do
    let first ← ofNode outer d
    return first :: (← ofParams outer rest)

def ofArgs (outer : Option Scope) : List (Option String × Node Value) → Action σ (List Tree)
  | [] => pure []
  | (_, a) :: rest => do
    let first ← ofNode outer a
    return first :: (← ofArgs outer rest)

end

/-- The outline of a function below a root with the given label. -/
def ofFunction (root : String) (fn : Function) : Action σ Tree := do
  let params ← ofNode fn.scope fn.params
  let body ← ofNode fn.scope fn.body
  return .node root [params, body]

def functionLabel (fn : Function) (scope : Scope) : String :=
  "[bold]" ++ fn.name.getD "None" ++ "[/bold](" ++
    ", ".intercalate (fn.params.paramNames?.getD []) ++ ")  " ++ scopeLabel scope

end Outline

end TreePass
