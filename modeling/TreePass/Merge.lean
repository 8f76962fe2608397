import TreePass.Node.Build

/-!
Combining results. Merging concatenates, key by key, what a sequence of maps holds; collecting
gathers what earlier passes left in the metadata of a call's arguments.
-/

set_option autoImplicit false
set_option relaxedAutoImplicit false

namespace TreePass

/-- A merged result: each name with its items, in order of first appearance. -/
abbrev Merged := List (String × List Value)

namespace Merged

/-- Adds items at the end of a name's list; a new name comes last. -/
def add (name : String) (items : List Value) : Merged → Merged
  | [] => [(name, items)]
  | (n, old) :: rest =>
    if n = name then (n, old ++ items) :: rest else (n, old) :: add name items rest

/-- Adds one entry; an entry without a usable name is dropped. -/
def addEntry (merged : Merged) (entry : Option String × Value) : Merged :=
  match entry.1 with
  | none => merged
  | some name => if name = "" then merged else merged.add name entry.2.items

def addEntries (merged : Merged) (entries : Entries) : Merged := entries.foldl addEntry merged

def entries (merged : Merged) : Entries := merged.map fun (name, items) => (some name, .list items)

def find (merged : Merged) (name : String) : List Value := (merged.lookup name).getD []

end Merged

def merge (results : List Entries) : Merged := results.foldl Merged.addEntries []

/-- The entries that a result contributes: none if it counts as false, else it has to be a map. -/
def contribution (result : Value) : Except Fault Entries :=
  if result.isTrue then
    match result with
    | .map entries => .ok entries
    | _ => .error .missingMember
  else .ok []

def mergeResults (results : List Value) : Except Fault Merged :=
  (results.mapM contribution).map merge

namespace Node

variable {σ : Type}

/-- The items under a metadata key of the given nodes, in order. -/
def collect (key : String) (accept : Expr → Bool) : List Expr → Action σ (List Value)
  | [] => pure []
  | node :: rest => do
    if accept node then
      let found ← node.metadata? key
      let items :=
        match found with
        | some .none | none => []
        | some value => value.items
      return items ++ (← collect key accept rest)
    else collect key accept rest

/-- What the arguments of a call, and if asked its callee, carry under a key. -/
def collectFromArgs (node : Expr) (key : String) (accept : Expr → Bool) (withCallee : Bool) :
    Action σ (List Value) :=
  if withCallee then collect key accept node.children
  else
    match node.args? with
    | some args => collect key accept args
    | none => Action.fail .missingMember

end Node

end TreePass
