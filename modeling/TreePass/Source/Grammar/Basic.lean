import TreePass.Source.Token

/-!
Parsers over tokens: single tokens, choices by the next token and repetition.
-/

set_option autoImplicit false
set_option relaxedAutoImplicit false

namespace TreePass.Source.Grammar

abbrev Parser (α : Type) := StateT (List Token) Option α

def refuse {α : Type} : Parser α := fun _ => none

def require (test : Bool) : Parser Unit := if test then pure () else refuse

def ahead : Parser (List Token) := get

def nextIsMark (text : String) : Parser Bool := do
  match ← ahead with
  | .mark t :: _ => return t == text
  | _ => return false

def nextIsWord (text : String) : Parser Bool := do
  match ← ahead with
  | .word t :: _ => return t == text
  | _ => return false

def advance : Parser Unit := modify List.tail

def mark (text : String) : Parser Unit := do
  require (← nextIsMark text)
  advance

def word (text : String) : Parser Unit := do
  require (← nextIsWord text)
  advance

def optionalMark (text : String) : Parser Bool := do
  if ← nextIsMark text then
    advance
    return true
  else return false

def optionalWord (text : String) : Parser Bool := do
  if ← nextIsWord text then
    advance
    return true
  else return false

def name : Parser String := do
  match ← ahead with
  | .word text :: _ =>
    require (!Token.keywords.contains text)
    advance
    return text
  | _ => refuse

def newline : Parser Unit := do
  match ← ahead with
  | .newline :: _ => advance
  | _ => refuse

def indent : Parser Unit := do
  match ← ahead with
  | .indent :: _ => advance
  | _ => refuse

def dedent : Parser Unit := do
  match ← ahead with
  | .dedent :: _ => advance
  | _ => refuse

def atEnd : Parser Bool := do return (← ahead).isEmpty

/-- Repeats a step as long as its test holds, at most `fuel` times. -/
def repeatWhile {α : Type} (test : Parser Bool) (step : Parser α) : Nat → Parser (List α)
  | 0 => pure []
  | fuel + 1 => do
    if ← test then
      let first ← step
      return first :: (← repeatWhile test step fuel)
    else return []

/-- Repeats a step as long as its test holds; each step takes a token. -/
def manyWhile {α : Type} (test : Parser Bool) (step : Parser α) : Parser (List α) := do
  repeatWhile test step (← ahead).length

/-- Extends a value from the left as long as the test gives a way to do so. -/
def extendWhile {α β : Type} (test : Parser (Option β)) (step : α → β → Parser α) :
    Nat → α → Parser α
  | 0, value => pure value
  | fuel + 1, value => do
    match ← test with
    | some b => do extendWhile test step fuel (← step value b)
    | none => return value

/-- Extends a value from the left; each step takes a token. -/
def extend {α β : Type} (test : Parser (Option β)) (step : α → β → Parser α) (value : α) :
    Parser α := do
  extendWhile test step (← ahead).length value

/-- Items divided by commas up to a closing mark, which is not taken; a last comma may stand
before it. -/
def itemsUntil {α : Type} (closed : Parser Bool) (item : Parser α) : Nat → Parser (List α)
  | 0 => refuse
  | fuel + 1 => do
    if ← closed then return []
    else
      let first ← item
      if ← optionalMark "," then return first :: (← itemsUntil closed item fuel)
      else
        require (← closed)
        return [first]

/-- Items divided by commas up to a closing mark, which is not taken. -/
def listUntil {α : Type} (closed : Parser Bool) (item : Parser α) : Parser (List α) := do
  itemsUntil closed item ((← ahead).length + 1)

def commaList {α : Type} (item : Parser α) : Parser (List α) := do
  let first ← item
  let rest ← manyWhile (nextIsMark ",") do
    mark ","
    item
  return first :: rest

end TreePass.Source.Grammar
