/-!
Which calls bind names and open scopes.
-/

set_option autoImplicit false
set_option relaxedAutoImplicit false

namespace TreePass

/-- The heuristics of scope analysis. -/
structure Policy where
  /-- Callees that assign to their first argument. -/
  assignmentForms : List String := ["<-", "="]
  /-- The callee of function literals. -/
  functionForm : String := "function"
  /-- Callees that bind their first argument as a loop variable. -/
  loopForms : List String := ["for"]
  /-- Callees whose arguments run in another environment. -/
  nseFunctions : List String :=
    ["quote", "bquote", "substitute", "expression", "local", "with", "within", "eval", "evalq",
      "~"]
  /-- Whether assigning to a part of a variable assigns the variable. -/
  countReplacementTargets : Bool := true
  deriving DecidableEq

end TreePass
