import TreePass.Text.Printable
import TreePass.Text.Ragged

/-!
Texts and bytes written between quotes. Single quotes are used unless the text holds a single
quote and no double one; hidden characters are written by their code points.
-/

set_option autoImplicit false
set_option relaxedAutoImplicit false

namespace TreePass.Text.Quoted

/-- A lower-case hexadecimal numeral of at least `width` digits. -/
def hex (width n : Nat) : List Char :=
  let digits := Nat.toDigits 16 n
  List.replicate (width - digits.length) '0' ++ digits

def quoteFor (text : List Char) : Char :=
  if text.contains '\'' && !text.contains '"' then '"' else '\''

def codePoint (n : Nat) : List Char :=
  if n < 0x100 then '\\' :: 'x' :: hex 2 n
  else if n < 0x10000 then '\\' :: 'u' :: hex 4 n
  else '\\' :: 'U' :: hex 8 n

def encodeChar (quote c : Char) : List Char :=
  if c == quote || c == '\\' then ['\\', c]
  else if c == '\t' then ['\\', 't']
  else if c == '\n' then ['\\', 'n']
  else if c == '\r' then ['\\', 'r']
  else if Printable.isPrintable c then [c]
  else codePoint c.toNat

def encode (text : List Char) : List Char :=
  let quote := quoteFor text
  quote :: text.flatMap (encodeChar quote) ++ [quote]

def quote (text : String) : String := String.ofList (encode text.toList)

/-- A text with surrogates between quotes: each of them is written by its code point. -/
def quoteRagged (text : Ragged) : String :=
  let quote := quoteFor text.display.toList
  let encodeCode (code : Nat) : List Char :=
    if isSurrogate code then codePoint code else encodeChar quote (Char.ofNat code)
  String.ofList (quote :: text.codes.flatMap encodeCode ++ [quote])

/-- One byte between the given quotes: every byte outside visible ASCII is escaped. -/
def encodeByte (quote : Char) (b : UInt8) : List Char :=
  if b < 0x80 then encodeChar quote (Char.ofNat b.toNat) else '\\' :: 'x' :: hex 2 b.toNat

def quoteBytes (bytes : List UInt8) : String :=
  let quote := quoteFor (bytes.map fun b => Char.ofNat b.toNat)
  String.ofList ('b' :: quote :: bytes.flatMap (encodeByte quote) ++ [quote])

def nameList (names : List String) : String :=
  "[" ++ ", ".intercalate (names.map quote) ++ "]"

end TreePass.Text.Quoted
