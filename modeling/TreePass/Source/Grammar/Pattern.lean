import TreePass.Source.Grammar.Expression

/-!
The grammar of patterns, which only have to be recognised.
-/

set_option autoImplicit false
set_option relaxedAutoImplicit false

namespace TreePass.Source.Grammar

def dottedName : Parser Nat := do
  let _ ← name
  let rest ← manyWhile (nextIsMark ".") do
    mark "."
    name
  return rest.length

def captureName : Parser Unit := do
  let text ← name
  require (text != "_")

def isImaginary (text : String) : Bool :=
  match numberTerm text with
  | .imaginary _ => true
  | _ => false

def signedNumber : Parser Unit := do
  let _ ← optionalMark "-"
  match ← ahead with
  | .number real :: .mark sign :: .number imaginary :: _ =>
    if sign = "+" || sign = "-" then
      require (!isImaginary real && isImaginary imaginary)
      modify (List.drop 3)
    else advance
  | .number _ :: .mark sign :: _ =>
    require (sign != "+" && sign != "-")
    advance
  | .number _ :: _ => advance
  | _ => refuse

def literalPattern? (g : Level) : Parser Bool := do
  match ← ahead with
  | .number _ :: _ | .mark "-" :: _ =>
    signedNumber
    return true
  | .string _ :: _ | .formatted _ :: _ =>
    let _ ← piece g
    let _ ← manyWhile nextIsPiece (piece g)
    return true
  | .word text :: _ =>
    if Term.constants.contains text then
      advance
      return true
    else return false
  | _ => return false

section Rules

variable (g : Level) (inner : Parser Unit)

def starPattern : Parser Unit := do
  mark "*"
  let _ ← name

def sequenceItem : Parser Unit := do
  if ← nextIsMark "*" then starPattern else inner

def mappingItem : Parser Unit := do
  if ← optionalMark "**" then captureName
  else
    if !(← literalPattern? g) then
      let dots ← dottedName
      require (dots > 0)
    mark ":"
    inner

def classItems : Nat → Bool → Parser Unit
  | 0, _ => refuse
  | fuel + 1, named => do
    if ← nextIsMark ")" then return
    else
      let isNamed ←
        match ← ahead with
        | .word _ :: .mark "=" :: _ =>
          let _ ← name
          mark "="
          inner
          pure true
        | _ =>
          require (!named)
          inner
          pure false
      if ← optionalMark "," then classItems fuel (named || isNamed)
      else require (← nextIsMark ")")

def namePattern : Parser Unit := do
  let dots ← dottedName
  if ← optionalMark "(" then
    classItems inner ((← ahead).length + 1) false
    mark ")"
  else
    let assigned ← nextIsMark "="
    require (dots > 0 || !assigned)

def closedPattern : Parser Unit := do
  if ← literalPattern? g then return
  else
    match ← ahead with
    | .mark "(" :: _ =>
      advance
      let _ ← listUntil (nextIsMark ")") (sequenceItem inner)
      mark ")"
    | .mark "[" :: _ =>
      advance
      let _ ← listUntil (nextIsMark "]") (sequenceItem inner)
      mark "]"
    | .mark "\x7b" :: _ =>
      advance
      let _ ← listUntil (nextIsMark "\x7d") (mappingItem g inner)
      mark "\x7d"
    | _ => namePattern inner

def patternOver : Parser Unit := do
  closedPattern g inner
  let _ ← manyWhile (nextIsMark "|") do
    mark "|"
    closedPattern g inner
  if ← optionalWord "as" then captureName

end Rules

def pattern (g : Level) : Nat → Parser Unit
  | 0 => refuse
  | depth + 1 => patternOver g (pattern g depth)

def casePattern (g : Level) : Parser Unit := do
  let single := pattern g ((← ahead).length + 1)
  let starred ← nextIsMark "*"
  sequenceItem single
  if ← optionalMark "," then
    let _ ← listUntil
      (do return (← nextIsMark ":") || (← nextIsWord "if")) (sequenceItem single)
  else require (!starred)

end TreePass.Source.Grammar
