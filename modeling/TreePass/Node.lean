import TreePass.Identity

/-!
Expression nodes. There are five shapes: literals, variables, direct references, parameter lists
and calls. Shape and children of a node never change; its tag tells it from every other node, so a
node that stands at two positions is one node exactly when both positions hold one tag.
-/

set_option autoImplicit false
set_option relaxedAutoImplicit false

namespace TreePass

abbrev Tag := Nat

/-- An expression node over literals of type `α`. -/
inductive Node (α : Type)
  /-- A literal constant. -/
  | atomic (tag : Tag) (value : α)
  /-- A variable reference. -/
  | symbol (tag : Tag) (name : String)
  /-- A direct reference to an object. -/
  | primitive (tag : Tag) (ref : Identity)
  /-- Parameters in order, each with an optional default. -/
  | pairlist (tag : Tag) (params : List (String × Option (Node α)))
  /-- A callee applied to arguments, each with an optional name. -/
  | call (tag : Tag) (callee : Node α) (args : List (Option String × Node α))

inductive Kind
  | atomic | symbol | primitive | pairlist | call
  deriving DecidableEq

namespace Kind

def label : Kind → String
  | atomic => "atomic"
  | symbol => "symbol"
  | primitive => "primitive"
  | pairlist => "pairlist"
  | call => "call"

def all : List Kind := [atomic, symbol, primitive, pairlist, call]

/-- Only parameter lists and calls own child expressions. -/
def isComposite : Kind → Bool
  | pairlist | call => true
  | _ => false

def typeName : Kind → String
  | atomic => "Atomic"
  | symbol => "Symbol"
  | primitive => "Primitive"
  | pairlist => "ParamList"
  | call => "Call"

end Kind

namespace Node

variable {α : Type}

instance : Inhabited (Node α) := ⟨symbol 0 ""⟩

def kind : Node α → Kind
  | atomic _ _ => .atomic
  | symbol _ _ => .symbol
  | primitive _ _ => .primitive
  | pairlist _ _ => .pairlist
  | call _ _ _ => .call

def tag : Node α → Tag
  | atomic t _ | symbol t _ | primitive t _ | pairlist t _ | call t _ _ => t

def same (first second : Node α) : Bool := first.tag == second.tag

def defaults (params : List (String × Option (Node α))) : List (Node α) :=
  params.filterMap (·.2)

/-- Child expressions in order: the callee and then the arguments of a call, the defaults of a
parameter list. -/
def children : Node α → List (Node α)
  | pairlist _ params => defaults params
  | call _ callee args => callee :: args.map (·.2)
  | _ => []

def symbolName? : Node α → Option String
  | symbol _ name => some name
  | _ => none

def calleeName? : Node α → Option String
  | call _ callee _ => callee.symbolName?
  | _ => none

def isCallTo (names : List String) (node : Node α) : Bool :=
  match node.calleeName? with
  | some name => names.contains name
  | none => false

def paramNames? : Node α → Option (List String)
  | pairlist _ params => some (params.map (·.1))
  | _ => none

def args? : Node α → Option (List (Node α))
  | call _ _ args => some (args.map (·.2))
  | _ => none

/-- Whether a node is a parameter list. -/
def isPairlist : Node α → Bool
  | pairlist _ _ => true
  | _ => false

def refillParams : List (String × Option (Node α)) → List (Node α) → List (String × Option (Node α))
  | [], _ => []
  | (name, none) :: rest, fresh => (name, none) :: refillParams rest fresh
  | (name, some _) :: rest, next :: fresh => (name, some next) :: refillParams rest fresh
  | (name, some old) :: rest, [] => (name, some old) :: refillParams rest []

/-- Gives the arguments new values under their old names. -/
def refillArgs (args : List (Option String × Node α)) (fresh : List (Node α)) :
    List (Option String × Node α) :=
  (args.map (·.1)).zip fresh

end Node

end TreePass
