import TreePass.Draft.Capture
import TreePass.Handler.Context
import TreePass.Node.Printer
import TreePass.Script.Syntax
import TreePass.Value.Equality

/-!
Evaluation of handler scripts.
-/

set_option autoImplicit false
set_option relaxedAutoImplicit false

namespace TreePass

/-- What scripts keep between handler calls: the values they logged, the nodes they share and the
skips they remember. -/
structure ScriptState where
  trace : List Draft := []
  shared : List (String × Expr) := []
  skips : List (String × Option Nat) := []

abbrev ScriptAction := Action ScriptState

namespace Script

def subject (visited : Expr) : List Value → ScriptAction Expr
  | [] => pure visited
  | .node n :: _ => pure n
  | _ => Action.fail .missingMember

def nodes (value : Value) : ScriptAction (List Expr) :=
  match value with
  | .list items | .tuple items => items.mapM Draft.asNode
  | _ => Action.fail .wrongOperand

def key (value : Value) : ScriptAction String :=
  match value with
  | .str text => pure text
  | _ => Action.fail .wrongOperand

/-- The name of a call's callee, a variable or a direct reference. -/
def nameOf : Expr → Value
  | .symbol _ name => .str name
  | .primitive _ ref => .str ref.name
  | .call _ callee _ => (callee.symbolName?.map .str).getD .none
  | _ => .none

def literalOf : Expr → ScriptAction Value
  | .atomic _ value => pure value
  | _ => Action.fail .missingMember

/-- The test for nodes of the shape a value names; no name accepts all. -/
def kindTest : Value → Expr → Bool
  | .str label, node => node.kind.label == label
  | _, _ => true

def sum (first second : Value) : ScriptAction Value :=
  match first, second with
  | .list a, .list b => pure (.list (a ++ b))
  | .tuple a, .tuple b => pure (.tuple (a ++ b))
  | a, b =>
    match a, b with
    | .int i, .int j => pure (.int (i + j))
    | .int i, .bool j | .bool j, .int i => pure (.int (i + if j then 1 else 0))
    | .bool i, .bool j => pure (.int ((if i then 1 else 0) + if j then 1 else 0))
    | _, _ =>
      match a.codes?, b.codes? with
      | some front, some back => pure (.ofCodes (front ++ back))
      | _, _ => Action.fail .wrongOperand

/-- The number of characters, items or entries. -/
def size : Value → ScriptAction Value
  | .str text => pure (.int text.length)
  | .ragged text => pure (.int text.codes.length)
  | .bytes data => pure (.int data.length)
  | .list items | .tuple items => pure (.int items.length)
  | .map entries => pure (.int entries.length)
  | _ => Action.fail .wrongOperand

/-- The item at an index; negative indices count from the end. -/
def itemAt (items : List Value) (index : Int) : ScriptAction Value :=
  let place := if index < 0 then index + items.length else index
  match if place < 0 then none else items[place.toNat]? with
  | some item => pure item
  | none => Action.fail .outOfRange

def entryAt (table : Value) (key default : Value) : ScriptAction Value :=
  match table, key with
  | .map entries, .str text => pure ((entries.lookup (some text)).getD default)
  | .map entries, .none => pure ((entries.lookup none).getD default)
  | .map _, _ => pure default
  | _, _ => Action.fail .missingMember

def orNone (values : List Value) : Value := values.head?.getD .none

def perform (visited : Expr) (ctx : Context ScriptState) :
    Operation → List Value → ScriptAction Value
  | .last, values => pure (values.getLast?.getD .none)
  | .list, values => pure (.list values)
  | .node, _ => pure (.node visited)
  | .next, values => do ctx.callNext (← subject visited values)
  | .skip, values => ctx.skip (orNone values)
  | .raise, values => Action.fail (.raised (orNone values).display)
  | .topdown, _ => pure ctx.topdown
  | .bottomup, _ => pure ((ctx.bottomup.map .list).getD .none)
  | .mode, _ => pure (.str ctx.mode.label)
  | .canSkip, _ => pure (.bool ctx.visit.isSome)
  | .hasNext, _ => pure (.bool ctx.next.isSome)
  | .scope, _ => pure ctx.scope
  | .bound, values => do
    let name ← key (orNone values)
    return .bool (← Action.ofExcept (ctx.scope.isBound name))
  | .param, values => do
    let name ← key (orNone values)
    return (ctx.params.find? name).getD (orNone (values.drop 1))
  | .flag, values => do
    let name ← key (orNone values)
    return .bool (← Action.ofExcept (ctx.flags.enabled name))
  | .inEnv, values => do
    let name ← key (orNone values)
    return .bool ((ctx.env.bind fun env => env.find? name).isSome)
  | .kind, values => do return .str (← subject visited values).kind.label
  | .name, values => do return nameOf (← subject visited values)
  | .value, values => do literalOf (← subject visited values)
  | .callee, values => do
    match ← subject visited values with
    | .call _ callee _ => return .node callee
    | _ => Action.fail .missingMember
  | .args, values => do
    match (← subject visited values).args? with
    | some args => return .list (args.map .node)
    | none => Action.fail .missingMember
  | .children, values => do return .list ((← subject visited values).children.map .node)
  | .render, values => do return .str (← subject visited values).render
  | .isCallTo, values => do
    let names ← values.mapM key
    return .bool (visited.isCallTo names)
  | .metadata, values => do
    let n ← subject visited values
    let name ← key (orNone (values.drop 1))
    return (← n.metadata? name).getD (orNone (values.drop 2))
  | .setMetadata, values => do
    let n ← subject visited values
    let name ← key (orNone (values.drop 1))
    n.setMetadata name (orNone (values.drop 2))
    return .node n
  | .withChildren, values => do
    let n ← subject visited values
    return .node (← n.withChildren (← nodes (orNone (values.drop 1))))
  | .withArgs, values => do
    let n ← subject visited values
    return .node (← n.withArgs (← nodes (orNone (values.drop 1))))
  | .clone, values => do return .node (← (← subject visited values).clone)
  | .makeCall, values => do
    let callee ←
      match orNone values with
      | .str text => Node.newSymbol text
      | other => Draft.asNode other
    let args ←
      match values.drop 1 with
      | [] => pure []
      | list :: _ => nodes list
    return .node (← Node.newCall callee args [])
  | .symbol, values => do return .node (← Node.newSymbol (← key (orNone values)))
  | .atom, values => do return .node (← Node.newAtomic (orNone values))
  | .merge, values => do
    let merged ← Action.ofExcept (mergeResults (orNone values).items)
    return .map merged.entries
  | .collect, values => do
    let n ← subject visited values
    let name ← key (orNone (values.drop 1))
    let accept := kindTest (orNone (values.drop 2))
    return .list (← n.collectFromArgs name accept (orNone (values.drop 3)).isTrue)
  | .shared, values => do
    let name ← key (orNone values)
    match (← Action.user).shared.lookup name with
    | some n => return .node n
    | none => Action.fail .missingKey
  | .standard, values => do
    match Standard.ofLabel? (← key (orNone values)) with
    | some handler => handler.run visited ctx
    | none => Action.fail .missingKey
  | .get, values => entryAt (orNone values) (orNone (values.drop 1)) (orNone (values.drop 2))
  | .item, values =>
    match values with
    | [.list items, .int i] | [.tuple items, .int i] => itemAt items i
    | _ => Action.fail .wrongOperand
  | .length, values => size (orNone values)
  | .add, values => sum (orNone values) (orNone (values.drop 1))
  | .equal, values => pure (.bool ((orNone values).equalTyped (orNone (values.drop 1))))
  | .negate, values => pure (.bool !(orNone values).isTrue)
  | .log, values => do
    let entry ← Draft.captured (orNone values)
    Action.modifyUser fun state => { state with trace := entry :: state.trace }
    return orNone values
  | .saveSkip, values => do
    let name ← key (orNone values)
    Action.modifyUser fun state => { state with skips := (name, ctx.visit) :: state.skips }
    return .none
  | .callSkip, values => do
    let name ← key (orNone values)
    match (← Action.user).skips.lookup name with
    | some visit =>
      ({ ctx with visit := visit } : Context ScriptState).skip (orNone (values.drop 1))
    | none => Action.fail .missingKey

mutual

def eval (visited : Expr) (ctx : Context ScriptState) : Script → ScriptAction Value
  | constant draft => draft.build
  | choose test yes no => do
    match ← eval visited ctx test with
    | .bool true => eval visited ctx yes
    | _ => eval visited ctx no
  | map entries => do return .map (Entries.ofPairs (← evalEntries visited ctx entries))
  | apply operation arguments => do
    perform visited ctx operation (← evalAll visited ctx arguments)

def evalAll (visited : Expr) (ctx : Context ScriptState) :
    List Script → ScriptAction (List Value)
  | [] => pure []
  | script :: rest => do
    let value ← eval visited ctx script
    return value :: (← evalAll visited ctx rest)

def evalEntries (visited : Expr) (ctx : Context ScriptState) :
    List (Script × Script) → ScriptAction Entries
  | [] => pure []
  | (k, v) :: rest => do
    let key ←
      match ← eval visited ctx k with
      | .str text => pure (some text)
      | .none => pure none
      | _ => Action.fail .wrongOperand
    let value ← eval visited ctx v
    return (key, value) :: (← evalEntries visited ctx rest)

end

def handler (script : Script) : Handler ScriptState := fun node ctx => eval node ctx script

end Script

end TreePass
