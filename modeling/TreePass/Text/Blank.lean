import TreePass.Text.Ranges

/-!
White space, as it is trimmed from both ends of a text.
-/

set_option autoImplicit false
set_option relaxedAutoImplicit false

namespace TreePass.Text.Blank

/-- The characters of bidirectional class WS, B or S and the space separators. -/
def blankRanges : Ranges := [
  (0x9, 0xD), (0x1C, 0x20), (0x85, 0x85), (0xA0, 0xA0), (0x1680, 0x1680), (0x2000, 0x200A),
  (0x2028, 0x2029), (0x202F, 0x202F), (0x205F, 0x205F), (0x3000, 0x3000)]

/-- White space in the sense of the Unicode character database. -/
def isBlank (c : Char) : Bool := blankRanges.mem c

def trimChars (text : List Char) : List Char :=
  ((text.dropWhile isBlank).reverse.dropWhile isBlank).reverse

def trimEnd (text : List Char) : List Char := (text.reverse.dropWhile isBlank).reverse

end TreePass.Text.Blank
