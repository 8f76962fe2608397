import TreePass.Number.Binary64
import TreePass.Text.Blank
import TreePass.Text.Digit

/-!
Numbers read from text. Digits of any script count, white space around the text is dropped, and a
single low line may stand between two digits.
-/

set_option autoImplicit false
set_option relaxedAutoImplicit false

namespace TreePass.Number.Numeral

open TreePass.Text

def maxDigits : Nat := 4300

/-- Digits of every script become ASCII digits and other characters stay. -/
def plainDigit (c : Char) : Char :=
  match Digit.value? c with
  | some d => Char.ofNat ('0'.toNat + d)
  | none => c

def dropLowLines : Bool → List Char → Option (List Char)
  | _, [] => some []
  | afterDigit, '_' :: rest =>
    match rest with
    | c :: _ => if afterDigit && c.isDigit then dropLowLines false rest else none
    | [] => none
  | _, c :: rest => (dropLowLines c.isDigit rest).map (c :: ·)

def splitSign : List Char → Bool × List Char
  | '+' :: rest => (false, rest)
  | '-' :: rest => (true, rest)
  | text => (false, text)

def digitsValue (digits : List Char) : Nat :=
  digits.foldl (fun total c => total * 10 + (c.toNat - '0'.toNat)) 0

/-- The text that is read: trimmed, with ASCII digits, without low lines. -/
def prepare? (text : String) : Option (List Char) :=
  dropLowLines false ((Blank.trimChars text.toList).map plainDigit)

def int? (text : String) : Option Int := do
  let (negative, digits) := splitSign (← prepare? text)
  if digits.isEmpty || !digits.all Char.isDigit || digits.length > maxDigits then none
  else
    let magnitude : Int := digitsValue digits
    some (if negative then -magnitude else magnitude)

/-- An optional exponent: the mark, a sign and digits up to the end of the text. -/
def exponent? : List Char → Option Int
  | [] => some 0
  | c :: rest =>
    if c == 'e' || c == 'E' then
      let (negative, digits) := splitSign rest
      if digits.isEmpty || !digits.all Char.isDigit then none
      else
        let magnitude : Int := digitsValue (digits.take 12)
        let magnitude :=
          if digits.length > 12 && digits.any (· != '0') then (Nat.pow 10 12 : Int) else magnitude
        some (if negative then -magnitude else magnitude)
    else none

def decimal? (negative : Bool) (text : List Char) : Option Binary64 :=
  let whole := text.takeWhile Char.isDigit
  let afterWhole := text.dropWhile Char.isDigit
  let (fraction, rest) :=
    match afterWhole with
    | '.' :: tail => (tail.takeWhile Char.isDigit, tail.dropWhile Char.isDigit)
    | _ => ([], afterWhole)
  if whole.isEmpty && fraction.isEmpty then none
  else (exponent? rest).map fun exponent =>
    Binary64.ofDecimal negative (digitsValue (whole ++ fraction)) (exponent - fraction.length)

/-- Reads a real number, an infinity or a NaN, in letters of either case. -/
def float? (text : String) : Option Binary64 := do
  let (negative, body) := splitSign (← prepare? text)
  let name := String.ofList (body.map Char.toLower)
  if name == "inf" || name == "infinity" then some (.infinite negative)
  else if name == "nan" then some (.nan 0)
  else decimal? negative body

end TreePass.Number.Numeral
