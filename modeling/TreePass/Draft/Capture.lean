import TreePass.Draft

/-!
Capturing a value: the draft that describes it as it is now, with the metadata its nodes have at
this moment.
-/

set_option autoImplicit false
set_option relaxedAutoImplicit false

namespace TreePass

namespace Draft

mutual

def captureWith (table : Tag → List (String × Draft)) : Value → Draft
  | .list items => .list (captureItems table items)
  | .tuple items => .tuple (captureItems table items)
  | .map entries => .map (captureEntries table entries)
  | .node n => captureNode table n
  | .scope s => .scope s.assigned s.bound
  | value => .plain value

def captureItems (table : Tag → List (String × Draft)) : List Value → List Draft
  | [] => []
  | x :: xs => captureWith table x :: captureItems table xs

def captureEntries (table : Tag → List (String × Draft)) :
    List (Option String × Value) → List (Option String × Draft)
  | [] => []
  | (key, value) :: rest => (key, captureWith table value) :: captureEntries table rest

def captureNode (table : Tag → List (String × Draft)) : Node Value → Draft
  | .atomic tag value => .atomic (table tag) (captureWith table value)
  | .symbol tag name => .symbol (table tag) name
  | .primitive tag ref => .primitive (table tag) ref
  | .pairlist tag params => .pairlist (table tag) (captureParams table params)
  | .call tag callee args =>
    .call (table tag) (captureNode table callee) (captureArgs table args) (args.map (·.1))

def captureParams (table : Tag → List (String × Draft)) :
    List (String × Option (Node Value)) → List (String × Option Draft)
  | [] => []
  | (name, none) :: rest => (name, none) :: captureParams table rest
  | (name, some d) :: rest => (name, some (captureNode table d)) :: captureParams table rest

def captureArgs (table : Tag → List (String × Draft)) :
    List (Option String × Node Value) → List Draft
  | [] => []
  | (_, a) :: rest => captureNode table a :: captureArgs table rest

end

def captureDepth {σ : Type} (s : Store σ) : Nat → Value → Draft
  | 0 => captureWith fun _ => []
  | depth + 1 => captureWith fun tag =>
      (s.table tag).map fun (key, value) => (key, captureDepth s depth value)

/-- The draft of a value in a store. Without circles no chain of metadata is longer than the
number of nodes. -/
def capture {σ : Type} (s : Store σ) (value : Value) : Draft :=
  captureDepth s (s.tables.size + 1) value

def captured {σ : Type} (value : Value) : Action σ Draft :=
  ⟨fun s => (.ok (capture s value), s), Store.Grows.refl⟩

end Draft

end TreePass
