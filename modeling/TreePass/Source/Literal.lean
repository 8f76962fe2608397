import TreePass.Number.Numeral
import TreePass.Source.Syntax
import TreePass.Source.Token
import TreePass.Text.Utf8
import TreePass.Value

/-!
The values of literals as written.
-/

set_option autoImplicit false
set_option relaxedAutoImplicit false

namespace TreePass.Source

/-- The characters that names stand for. -/
abbrev CharacterNames := String → Option Char

namespace Literal

open TreePass.Number

def digitValue (c : Char) : Nat :=
  if c.isDigit then c.toNat - '0'.toNat
  else if 'a' ≤ c && c ≤ 'f' then c.toNat - 'a'.toNat + 10
  else if 'A' ≤ c && c ≤ 'F' then c.toNat - 'A'.toNat + 10
  else 16

/-- The value of digits in a base; low lines between them do not count. -/
def valueInBase (base : Nat) (digits : List Char) : Nat :=
  (digits.filter (· != '_')).foldl (fun total c => total * base + digitValue c) 0

/-- The value of an integer as written. A decimal one must not be too long to read. -/
def integer? (text : String) : Option Int :=
  match text.toList with
  | '0' :: c :: digits =>
    if c == 'x' || c == 'X' then some (valueInBase 16 digits)
    else if c == 'o' || c == 'O' then some (valueInBase 8 digits)
    else if c == 'b' || c == 'B' then some (valueInBase 2 digits)
    else Numeral.int? text
  | _ => Numeral.int? text

def imaginary? (text : String) : Option Value :=
  (Numeral.float? (String.ofList text.toList.dropLast)).map fun im =>
    .complex (Binary64.zero false) im

/-- The value of up to `count` digits of a base at the front of a text. -/
def takeDigits (base : Nat) : Nat → List Char → List Char
  | 0, _ => []
  | _ + 1, [] => []
  | count + 1, c :: rest => if digitValue c < base then c :: takeDigits base count rest else []

def hexCode? (count : Nat) (text : List Char) : Option Nat :=
  let digits := takeDigits 16 count text
  if digits.length = count then some (valueInBase 16 digits) else none

def simpleEscapes : List (Char × Char) :=
  [('\\', '\\'), ('\'', '\''), ('"', '"'), ('a', '\x07'), ('b', '\x08'), ('f', '\x0c'),
    ('n', '\n'), ('r', '\r'), ('t', '\t'), ('v', '\x0b')]

variable (characters : CharacterNames)

/-- The code of the character whose name stands in braces, and the length of the name with them. -/
def named? : List Char → Option (Nat × Nat)
  | '\x7b' :: text =>
    let name := text.takeWhile (· != '\x7d')
    if name.isEmpty || name.length = text.length then none
    else (characters (String.ofList name)).map fun c => (c.toNat, name.length + 2)
  | _ => none

def escape? (bytes : Bool) (text : List Char) : Option (List Nat × Nat) :=
  match text with
  | [] => none
  | '\n' :: _ => some ([], 1)
  | c :: rest =>
    match simpleEscapes.lookup c with
    | some plain => some ([plain.toNat], 1)
    | none =>
      if digitValue c < 8 then
        let digits := takeDigits 8 3 text
        let code := valueInBase 8 digits
        some ([if bytes then code % 256 else code], digits.length)
      else if c == 'x' then (hexCode? 2 rest).map fun code => ([code], 3)
      else if bytes then some ([92, c.toNat], 1)
      else if c == 'u' then (hexCode? 4 rest).map fun code => ([code], 5)
      else if c == 'U' then
        (hexCode? 8 rest).bind fun code => if code ≤ 0x10FFFF then some ([code], 9) else none
      else if c == 'N' then (named? characters rest).map fun (code, length) => ([code], length + 1)
      else some ([92, c.toNat], 1)

def decode? (bytes : Bool) : Nat → List Char → Option (List Nat)
  | 0, _ => none
  | _ + 1, [] => some []
  | fuel + 1, '\\' :: rest => do
    let (codes, length) ← escape? characters bytes rest
    let more ← decode? bytes fuel (rest.drop length)
    some (codes ++ more)
  | fuel + 1, c :: rest => (decode? bytes fuel rest).map (c.toNat :: ·)

/-- The body of a string literal, between its quotes. -/
def body (quoted : List Char) : List Char :=
  let width :=
    match quoted with
    | a :: b :: c :: _ :: _ :: _ :: _ => if a == b && b == c then 3 else 1
    | _ => 1
  (quoted.drop width).take (quoted.length - 2 * width)

/-- The value of a string literal as written, if its escapes are sound and bytes are ASCII. -/
def string? (text : String) : Option Value :=
  let chars := Text.Utf8.unifyNewlines text.toList
  let letters := (chars.takeWhile Char.isAlpha).map Char.toLower
  let inner := body (chars.dropWhile Char.isAlpha)
  let bytes := letters.contains 'b'
  if bytes && inner.any fun c => c.toNat ≥ 0x80 then none
  else
    let codes :=
      if letters.contains 'r' then some (inner.map Char.toNat)
      else decode? characters bytes (inner.length + 1) inner
    codes.map fun codes =>
      if bytes then .bytes (codes.map Nat.toUInt8) else .ofCodes codes

def join : Value → Value → Value
  | .bytes a, .bytes b => .bytes (a ++ b)
  | a, b =>
    match a.codes?, b.codes? with
    | some front, some back => .ofCodes (front ++ back)
    | _, _ => .none

/-- The value of adjacent literals, from the last one on. Where a formatted literal stands on either
side there is nothing to compute. -/
def pieces? : List Piece → Option Value
  | [] | .formatted _ :: _ | [.plain _, .formatted _] => some .none
  | [.plain text] => string? characters text
  | .plain text :: rest => do
    let left ← string? characters text
    let right ← pieces? rest
    some (join left right)

end Literal

end TreePass.Source
