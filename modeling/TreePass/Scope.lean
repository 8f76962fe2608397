/-!
Scopes: the names assigned in a function body and the names that may be bound there. Sets of names
are lists in increasing order without repetition.
-/

set_option autoImplicit false
set_option relaxedAutoImplicit false

namespace TreePass

/-- A finite set of names, in increasing order of code points. -/
abbrev NameSet := List String

namespace NameSet

def insert (name : String) : NameSet → NameSet
  | [] => [name]
  | head :: rest =>
    if name < head then name :: head :: rest
    else if name = head then head :: rest
    else head :: insert name rest

def ofNames (names : List String) : NameSet := names.foldr insert []

def union (first second : NameSet) : NameSet := first.foldr insert second

end NameSet

/-- Static binding information of one function body. Two scopes with equal sets are still
different scopes when their tags differ. -/
structure Scope where
  tag : Nat
  assigned : NameSet
  bound : NameSet
  deriving DecidableEq

namespace Scope

/-- The scope of an expression that stands in no function. -/
def empty : Scope := ⟨0, [], []⟩

/-- A name that may be bound locally hides an outer object of that name. -/
def isBound (scope : Scope) (name : String) : Bool := scope.bound.contains name

def equal (first second : Scope) : Bool :=
  first.assigned == second.assigned && first.bound == second.bound

end Scope

end TreePass
