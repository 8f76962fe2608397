import TreePass.Text.Quoted

/-!
Strict decoding of UTF-8, with the place and the kind of the first malformed sequence.
-/

set_option autoImplicit false
set_option relaxedAutoImplicit false

namespace TreePass.Text.Utf8

inductive Defect
  | invalidStart
  | invalidContinuation
  | unexpectedEnd
  deriving DecidableEq

/-- The first malformed sequence: its position, its length, its first byte and its defect. -/
structure Malformed where
  position : Nat
  length : Nat
  byte : UInt8
  defect : Defect
  deriving DecidableEq

def Defect.message : Defect → String
  | .invalidStart => "invalid start byte"
  | .invalidContinuation => "invalid continuation byte"
  | .unexpectedEnd => "unexpected end of data"

/-- The wording of a malformed sequence: a single byte is shown, a longer run is located. -/
def Malformed.message (m : Malformed) : String :=
  let place :=
    if m.length == 1 then
      "byte 0x" ++ String.ofList (Quoted.hex 2 m.byte.toNat) ++ " in position " ++
        toString m.position
    else
      "bytes in position " ++ toString m.position ++ "-" ++ toString (m.position + m.length - 1)
  "'utf-8' codec can't decode " ++ place ++ ": " ++ m.defect.message

def isTail (b : UInt8) : Bool := 0x80 ≤ b && b ≤ 0xBF

/-- The second bytes that may follow a lead byte: no overlong form, no surrogate, nothing beyond
the last code point. -/
def isSecond (lead b : UInt8) : Bool :=
  if lead == 0xE0 then 0xA0 ≤ b && b ≤ 0xBF
  else if lead == 0xED then 0x80 ≤ b && b ≤ 0x9F
  else if lead == 0xF0 then 0x90 ≤ b && b ≤ 0xBF
  else if lead == 0xF4 then 0x80 ≤ b && b ≤ 0x8F
  else isTail b

def payload (b : UInt8) : Nat := b.toNat % 64

def decodeFrom (position : Nat) : List UInt8 → Except Malformed (List Char)
  | [] => .ok []
  | b :: rest =>
    if b < 0x80 then
      (decodeFrom (position + 1) rest).map (Char.ofNat b.toNat :: ·)
    else if b < 0xC2 || b > 0xF4 then .error ⟨position, 1, b, .invalidStart⟩
    else
      match rest with
      | [] => .error ⟨position, 1, b, .unexpectedEnd⟩
      | b₁ :: rest =>
        if !isSecond b b₁ then .error ⟨position, 1, b, .invalidContinuation⟩
        else if b < 0xE0 then
          (decodeFrom (position + 2) rest).map
            (Char.ofNat (b.toNat % 32 * 64 + payload b₁) :: ·)
        else
          match rest with
          | [] => .error ⟨position, 2, b, .unexpectedEnd⟩
          | b₂ :: rest =>
            if !isTail b₂ then .error ⟨position, 2, b, .invalidContinuation⟩
            else if b < 0xF0 then
              (decodeFrom (position + 3) rest).map
                (Char.ofNat (b.toNat % 16 * 4096 + payload b₁ * 64 + payload b₂) :: ·)
            else
              match rest with
              | [] => .error ⟨position, 3, b, .unexpectedEnd⟩
              | b₃ :: rest =>
                if !isTail b₃ then .error ⟨position, 3, b, .invalidContinuation⟩
                else
                  (decodeFrom (position + 4) rest).map
                    (Char.ofNat
                      (b.toNat % 8 * 262144 + payload b₁ * 4096 + payload b₂ * 64 + payload b₃)
                      :: ·)

def decode (bytes : List UInt8) : Except Malformed String :=
  (decodeFrom 0 bytes).map String.ofList

/-- Every line ends in a single line feed: carriage returns are replaced. -/
def unifyNewlines : List Char → List Char
  | '\r' :: '\n' :: rest => '\n' :: unifyNewlines rest
  | '\r' :: rest => '\n' :: unifyNewlines rest
  | c :: rest => c :: unifyNewlines rest
  | [] => []

end TreePass.Text.Utf8
