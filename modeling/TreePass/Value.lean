import TreePass.Node
import TreePass.Scope
import TreePass.Number.Binary64
import TreePass.Text.Ragged

/-!
Dynamic values: literals, the metadata of nodes, what topdown handlers pass down and what
handlers return.
-/

set_option autoImplicit false
set_option relaxedAutoImplicit false

namespace TreePass

open Number (Binary64)

/-- A dynamic value. Maps keep their entries in order of insertion, with one entry a key. -/
inductive Value
  | none
  | bool (b : Bool)
  | int (i : Int)
  | float (x : Binary64)
  | complex (re im : Binary64)
  | str (text : String)
  | ragged (text : Text.Ragged)
  | bytes (data : List UInt8)
  | ellipsis
  | list (items : List Value)
  | tuple (items : List Value)
  | map (entries : List (Option String × Value))
  | node (n : Node Value)
  | scope (s : Scope)
  | identity (i : Identity)

/-- Expressions are nodes whose literals are values. -/
abbrev Expr := Node Value

abbrev Entries := List (Option String × Value)

/-- A table of values under string keys, in order of insertion. -/
abbrev Table := List (String × Value)

namespace Table

def find? (table : Table) (key : String) : Option Value := table.lookup key

/-- Stores a value: a known key keeps its place, a new key comes last. -/
def put (key : String) (value : Value) : Table → Table
  | [] => [(key, value)]
  | (k, v) :: rest => if k = key then (k, value) :: rest else (k, v) :: put key value rest

end Table

namespace Entries

/-- Stores a value: a known key keeps its place, a new key comes last. -/
def put (key : Option String) (value : Value) : Entries → Entries
  | [] => [(key, value)]
  | (k, v) :: rest => if k = key then (k, value) :: rest else (k, v) :: put key value rest

/-- The entries of a map made from pairs; of a repeated key the last value stays. -/
def ofPairs (pairs : Entries) : Entries :=
  pairs.foldl (fun entries pair => put pair.1 pair.2 entries) []

end Entries

namespace Value

instance : Inhabited Value := ⟨none⟩

def typeName : Value → String
  | none => "NoneType"
  | bool _ => "bool"
  | int _ => "int"
  | float _ => "float"
  | complex _ _ => "complex"
  | str _ | ragged _ => "str"
  | bytes _ => "bytes"
  | ellipsis => "ellipsis"
  | list _ => "list"
  | tuple _ => "tuple"
  | map _ => "dict"
  | node n => n.kind.typeName
  | scope _ => "ScopeInfo"
  | identity .none => "NoneType"
  | identity _ => "object"

/-- What counts as true: all but nothing, false, zero and the empty texts and collections. -/
def isTrue : Value → Bool
  | none => false
  | bool b => b
  | int i => i != 0
  | float x => !x.isZero
  | complex re im => !(re.isZero && im.isZero)
  | str text => text != ""
  | bytes data => !data.isEmpty
  | list items | tuple items => !items.isEmpty
  | map entries => !entries.isEmpty
  | identity i => i != .none && i != .builtin "False"
  | ragged _ | ellipsis | node _ | scope _ => true

def node? : Value → Option Expr
  | node n => some n
  | _ => Option.none

def entries? : Value → Option Entries
  | map entries => some entries
  | _ => Option.none

/-- Lists and tuples are spliced; anything else is a single item. -/
def items : Value → List Value
  | list items | tuple items => items
  | value => [value]

def ofCodes (codes : List Nat) : Value :=
  if uneven : codes.any Text.isSurrogate = true then ragged ⟨codes, uneven⟩
  else str (String.ofList (codes.map Char.ofNat))

def codes? : Value → Option (List Nat)
  | str text => some (text.toList.map Char.toNat)
  | ragged text => some text.codes
  | _ => Option.none

def ofNames (names : List String) : Value := list (names.map str)

end Value

end TreePass
