/-!
Binary floating point numbers of 64 bits, held by their value. A finite number is a sign with a
mantissa below two to the 53rd, scaled by a power of two; rounding goes to the nearest number and
a tie goes to the even mantissa.
-/

set_option autoImplicit false
set_option relaxedAutoImplicit false

namespace TreePass.Number

/-- A 64-bit number; a finite one has the magnitude `mantissa * 2 ^ exponent`. NaNs are told apart
by the object that holds them. -/
inductive Binary64
  | nan (object : Nat)
  | infinite (negative : Bool)
  | finite (negative : Bool) (mantissa : Nat) (exponent : Int)
  deriving DecidableEq

namespace Binary64

def minExponent : Int := -1074

def maxExponent : Int := 971

def zero (negative : Bool) : Binary64 := .finite negative 0 minExponent

/-- The quotient rounded to the nearest natural number, a tie to the even one. -/
def roundDiv (num den : Nat) : Nat :=
  let quotient := num / den
  let twice := 2 * (num % den)
  if twice > den || (twice == den && quotient % 2 == 1) then quotient + 1 else quotient

/-- The quotient `num / (den * 2 ^ exponent)` rounded to a mantissa. -/
def scaledDiv (num den : Nat) (exponent : Int) : Nat :=
  match exponent with
  | .ofNat n => roundDiv num (den * Nat.pow 2 n)
  | .negSucc n => roundDiv (num * Nat.pow 2 (n + 1)) den

def atLeastPower (num den : Nat) (exponent : Int) : Bool :=
  match exponent with
  | .ofNat n => den * Nat.pow 2 n ≤ num
  | .negSucc n => den ≤ num * Nat.pow 2 (n + 1)

/-- The number nearest to the ratio of two naturals, infinite beyond the greatest mantissa. -/
def ofRatio (negative : Bool) (num den : Nat) : Binary64 :=
  if num == 0 then zero negative
  else
    let guess : Int := (Nat.log2 num : Int) - (Nat.log2 den : Int)
    let top := if atLeastPower num den guess then guess else guess - 1
    let exponent := max (top - 52) minExponent
    let mantissa := scaledDiv num den exponent
    let carried := mantissa == Nat.pow 2 53
    let mantissa := if carried then Nat.pow 2 52 else mantissa
    let exponent := if carried then exponent + 1 else exponent
    if exponent > maxExponent then .infinite negative
    else if mantissa == 0 then zero negative
    else .finite negative mantissa exponent

def ofDecimal (negative : Bool) (digits : Nat) (exponent : Int) : Binary64 :=
  if digits == 0 then zero negative
  else
    let magnitude := (Nat.toDigits 10 digits).length + exponent
    if magnitude > 400 then .infinite negative
    else if magnitude < -400 then zero negative
    else
      match exponent with
      | .ofNat n => ofRatio negative (digits * Nat.pow 10 n) 1
      | .negSucc n => ofRatio negative digits (Nat.pow 10 (n + 1))

def ofInt (value : Int) : Binary64 := ofRatio (value < 0) value.natAbs 1

def ratio (mantissa : Nat) (exponent : Int) : Nat × Nat :=
  match exponent with
  | .ofNat n => (mantissa * Nat.pow 2 n, 1)
  | .negSucc n => (mantissa, Nat.pow 2 (n + 1))

/-- Numbers compare by value: the two zeros agree and a NaN differs from every number. -/
def equal : Binary64 → Binary64 → Bool
  | .finite n m e, .finite n' m' e' =>
    (m == 0 && m' == 0) || (n == n' && m == m' && e == e')
  | .infinite n, .infinite n' => n == n'
  | _, _ => false

def isNan : Binary64 → Bool
  | .nan _ => true
  | _ => false

def isZero : Binary64 → Bool
  | .finite _ m _ => m == 0
  | _ => false

def toInt? : Binary64 → Option Int
  | .finite negative m e =>
    let (num, den) := ratio m e
    if num % den == 0 then
      let magnitude : Int := (num / den : Nat)
      some (if negative then -magnitude else magnitude)
    else none
  | _ => none

end Binary64

end TreePass.Number
