/-!
Sets of characters given by closed ranges of code points.
-/

set_option autoImplicit false
set_option relaxedAutoImplicit false

namespace TreePass.Text

/-- Closed ranges of code points, in increasing order and without overlap. -/
abbrev Ranges := List (Nat × Nat)

/-- A character belongs to a table when one of its ranges holds its code point. -/
def Ranges.mem (table : Ranges) (c : Char) : Bool :=
  table.any fun range => range.1 ≤ c.toNat && c.toNat ≤ range.2

end TreePass.Text
