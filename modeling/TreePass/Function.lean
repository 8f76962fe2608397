import TreePass.Value

/-!
Functions: parameters, a body, and the environment in which callees are looked up.
-/

set_option autoImplicit false
set_option relaxedAutoImplicit false

namespace TreePass

/-- A function. One that has been annotated knows the scope of its body. -/
structure Function where
  params : Expr
  body : Expr
  env : Option Environment := none
  name : Option String := none
  scope : Option Scope := none

end TreePass
