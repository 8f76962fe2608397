import TreePass.Console.Markup

/-!
Trees drawn with guides: every branch is joined to the one above it, and the last branch of a node
ends its guide. The later lines of a label keep the guides of the first one.
-/

set_option autoImplicit false
set_option relaxedAutoImplicit false

namespace TreePass.Console

/-- A tree whose labels may hold style marks. -/
inductive Tree
  | node (label : String) (branches : List Tree)

namespace Tree

def fork (last : Bool) : String := if last then "└── " else "├── "

def under (last : Bool) : String := if last then "    " else "│   "

def labelled (first later : String) (lines : List String) : List String :=
  match lines with
  | [] => []
  | line :: rest => (first ++ line) :: rest.map (later ++ ·)

mutual

def branch (guides : String) (last : Bool) : Tree → Except Markup.Unmatched (List String)
  | .node label branches => do
    let own ← Markup.lines label
    let inner ← branchLines (guides ++ under last) branches
    return labelled (guides ++ fork last) (guides ++ under last) own ++ inner

def branchLines (guides : String) : List Tree → Except Markup.Unmatched (List String)
  | [] => .ok []
  | tree :: rest => do
    let first ← branch guides rest.isEmpty tree
    return first ++ (← branchLines guides rest)

end

/-- The lines of a whole tree; its root has no guide. -/
def lines : Tree → Except Markup.Unmatched (List String)
  | .node label branches => do
    let own ← Markup.lines label
    return own ++ (← branchLines "" branches)

end Tree

end TreePass.Console
