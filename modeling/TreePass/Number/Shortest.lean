import TreePass.Number.Binary64

/-!
The shortest decimal that reads back as a given binary number, and its written form.
-/

set_option autoImplicit false
set_option relaxedAutoImplicit false

namespace TreePass.Number.Shortest

structure Decimal where
  digits : Nat
  scale : Int
  deriving DecidableEq

def atLeastTenPower (num den : Nat) (exponent : Int) : Bool :=
  match exponent with
  | .ofNat n => den * Nat.pow 10 n ≤ num
  | .negSucc n => den ≤ num * Nat.pow 10 (n + 1)

/-- Lowers `exponent` until ten to that power is no greater than the ratio. -/
def lowerTo (num den : Nat) : Nat → Int → Int
  | 0, exponent => exponent
  | fuel + 1, exponent =>
    if atLeastTenPower num den exponent then exponent else lowerTo num den fuel (exponent - 1)

/-- The place of the first digit of a positive ratio: the greatest power of ten below it. -/
def leadingPlace (num den : Nat) : Int :=
  let start : Int := (((Nat.log2 num : Int) - (Nat.log2 den : Int) + 1) * 30103) / 100000 + 1
  lowerTo num den 8 start

/-- The ratio measured in units of ten to the power `scale`: the quotient below it, with the
remainder and the divisor that tell how far the next unit is. -/
def gridDiv (num den : Nat) (scale : Int) : Nat × Nat × Nat :=
  match scale with
  | .ofNat n => let d := den * Nat.pow 10 n; (num / d, num % d, d)
  | .negSucc n => let p := num * Nat.pow 10 (n + 1); (p / den, p % den, den)

/-- On the grid with `count` digits, the neighbour of the value that reads back and is nearer;
of two equally near the even one. -/
def onGrid? (mantissa : Nat) (exponent : Int) (place : Int) (count : Nat) : Option Decimal :=
  let (num, den) := Binary64.ratio mantissa exponent
  let scale := place - (count : Int) + 1
  let (below, remainder, divisor) := gridDiv num den scale
  let readsBack (digits : Nat) : Bool :=
    Binary64.ofDecimal false digits scale == .finite false mantissa exponent
  let lowFits := readsBack below
  let highFits := readsBack (below + 1)
  let high : Bool := 2 * remainder > divisor || (2 * remainder == divisor && below % 2 == 1)
  if lowFits && highFits then some ⟨if high then below + 1 else below, scale⟩
  else if lowFits then some ⟨below, scale⟩
  else if highFits then some ⟨below + 1, scale⟩
  else none

/-- The first of the grids with `count` and more digits on which the value reads back. -/
def search (mantissa : Nat) (exponent : Int) (place : Int) : Nat → Nat → Option Decimal
  | 0, _ => none
  | fuel + 1, count =>
    match onGrid? mantissa exponent place count with
    | some decimal => some decimal
    | none => search mantissa exponent place fuel (count + 1)

/-- The shortest decimal that reads back as a positive finite number. -/
def shortest (mantissa : Nat) (exponent : Int) : Decimal :=
  let (num, den) := Binary64.ratio mantissa exponent
  (search mantissa exponent (leadingPlace num den) 17 1).getD ⟨mantissa, 0⟩

/-- How numbers are written: the range of places in positional form and whether a whole number
keeps a fraction. -/
structure NumberFormat where
  leastPlace : Int
  greatestPlace : Int
  keepsFraction : Bool

/-- Numbers from a ten-thousandth up to ten to the 16th are positional; whole ones end in `.0`. -/
def plainFormat : NumberFormat := ⟨-4, 15, true⟩

/-- The parts of a complex number are written alike, without the empty fraction. -/
def complexPartFormat : NumberFormat := ⟨-4, 15, false⟩

def trimZeros (digits : List Char) : List Char :=
  (digits.reverse.dropWhile (· == '0')).reverse

def exponentText (place : Int) : String :=
  let magnitude := toString place.natAbs
  let padded := if magnitude.length < 2 then "0" ++ magnitude else magnitude
  (if place < 0 then "e-" else "e+") ++ padded

/-- The text of a positive decimal whose first digit stands at `place`. -/
def digitsText (format : NumberFormat) (digits : List Char) (place : Int) : String :=
  if format.leastPlace ≤ place && place ≤ format.greatestPlace then
    if place < 0 then
      "0." ++ String.ofList (List.replicate (place.natAbs - 1) '0' ++ digits)
    else
      let whole := place.toNat + 1
      let padded := digits ++ List.replicate (whole - digits.length) '0'
      let fraction := padded.drop whole
      let fractionText :=
        if fraction.isEmpty then (if format.keepsFraction then ".0" else "")
        else "." ++ String.ofList fraction
      String.ofList (padded.take whole) ++ fractionText
  else
    match digits with
    | [] => exponentText place
    | [d] => String.ofList [d] ++ exponentText place
    | d :: rest => String.ofList (d :: '.' :: rest) ++ exponentText place

def magnitudeText (format : NumberFormat) (mantissa : Nat) (exponent : Int) : String :=
  if mantissa == 0 then (if format.keepsFraction then "0.0" else "0")
  else
    let decimal := shortest mantissa exponent
    let all := Nat.toDigits 10 decimal.digits
    digitsText format (trimZeros all) (decimal.scale + (all.length : Int) - 1)

def text (format : NumberFormat) : Binary64 → String
  | .nan _ => "nan"
  | .infinite negative => if negative then "-inf" else "inf"
  | .finite negative m e => (if negative then "-" else "") ++ magnitudeText format m e

def realText (x : Binary64) : String := text plainFormat x

/-- Whether the written form begins with a minus sign. -/
def isNegative : Binary64 → Bool
  | .nan _ => false
  | .infinite n => n
  | .finite n _ _ => n

/-- A complex number with a positive zero real part is written by its imaginary part alone. -/
def complexText (re im : Binary64) : String :=
  let imText := text complexPartFormat im ++ "j"
  if re.isZero && !isNegative re then imText
  else
    "(" ++ text complexPartFormat re ++ (if isNegative im then "" else "+") ++ imText ++ ")"

end TreePass.Number.Shortest
