import TreePass.Number.Shortest
import TreePass.Value

/-!
The written form of values.
-/

set_option autoImplicit false
set_option relaxedAutoImplicit false

namespace TreePass

open Text.Quoted (quote quoteBytes quoteRagged)

/-- A set of names in braces; the empty set has none. -/
def NameSet.text (names : NameSet) : String :=
  if names.isEmpty then "frozenset()"
  else "frozenset(\x7b" ++ ", ".intercalate (names.map quote) ++ "\x7d)"

/-- Items between parentheses; a single item keeps a comma. -/
def tupleText : List String → String
  | [single] => "(" ++ single ++ ",)"
  | items => "(" ++ ", ".intercalate items ++ ")"

mutual

def Value.text : Value → String
  | .none => "None"
  | .bool b => if b then "True" else "False"
  | .int i => toString i
  | .float x => Number.Shortest.realText x
  | .complex re im => Number.Shortest.complexText re im
  | .str s => quote s
  | .ragged s => quoteRagged s
  | .bytes data => quoteBytes data
  | .ellipsis => "Ellipsis"
  | .list items => "[" ++ ", ".intercalate (itemTexts items) ++ "]"
  | .tuple items => tupleText (itemTexts items)
  | .map entries => "\x7b" ++ ", ".intercalate (entryTexts entries) ++ "\x7d"
  | .node n => Node.text n
  | .scope s =>
    "ScopeInfo(assigned=" ++ s.assigned.text ++ ", bound=" ++ s.bound.text ++ ")"
  | .identity i => i.description

def itemTexts : List Value → List String
  | [] => []
  | x :: xs => Value.text x :: itemTexts xs

def entryTexts : List (Option String × Value) → List String
  | [] => []
  | (key, value) :: rest =>
    ((key.map quote).getD "None" ++ ": " ++ Value.text value) :: entryTexts rest

/-- The written form of a node as a record of its parts. -/
def Node.text : Node Value → String
  | .atomic _ v => "Atomic(value=" ++ Value.text v ++ ")"
  | .symbol _ name => "Symbol(name=" ++ quote name ++ ")"
  | .primitive _ ref => "Primitive(ref=" ++ ref.description ++ ")"
  | .pairlist _ params => "ParamList(params=" ++ tupleText (paramTexts params) ++ ")"
  | .call _ callee args =>
    "Call(callee=" ++ Node.text callee ++ ", args=" ++ tupleText (argTexts args) ++
      ", arg_names=" ++ tupleText (args.map fun arg => (arg.1.map quote).getD "None") ++ ")"

def paramTexts : List (String × Option (Node Value)) → List String
  | [] => []
  | (name, none) :: rest => ("Param(name=" ++ quote name ++ ", default=None)") :: paramTexts rest
  | (name, some d) :: rest =>
    ("Param(name=" ++ quote name ++ ", default=" ++ Node.text d ++ ")") :: paramTexts rest

def argTexts : List (Option String × Node Value) → List String
  | [] => []
  | (_, a) :: rest => Node.text a :: argTexts rest

end

namespace Value

def display : Value → String
  | str text => text
  | ragged text => text.display
  | value => value.text

end Value

end TreePass
