/-!
Texts that no string of characters holds, since a surrogate stands in them by itself.
-/

set_option autoImplicit false
set_option relaxedAutoImplicit false

namespace TreePass.Text

def isSurrogate (code : Nat) : Bool := 0xD800 ≤ code && code ≤ 0xDFFF

/-- A text with a surrogate in it, given by its code points. -/
structure Ragged where
  codes : List Nat
  ragged : codes.any isSurrogate = true
  deriving DecidableEq

namespace Ragged

def display (text : Ragged) : String :=
  String.ofList (text.codes.map fun code => if isSurrogate code then '\uFFFD' else Char.ofNat code)

end Ragged

end TreePass.Text
