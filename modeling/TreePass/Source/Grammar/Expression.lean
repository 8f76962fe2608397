import TreePass.Source.Grammar.Basic
import TreePass.Source.Syntax

/-!
The grammar of expressions. Every rule that comes back to an expression has taken a token before,
so a level of nesting for each token is enough: the rules of one level use those of the level
below through a record of parsers.
-/

set_option autoImplicit false
set_option relaxedAutoImplicit false

namespace TreePass.Source.Grammar

/-- The parsers that rules come back to. -/
structure Level where
  expression : Parser Term
  disjunction : Parser Term
  inversion : Parser Term
  bitOr : Parser Term
  factor : Parser Term
  primary : Parser Term

def Level.bottom : Level := ⟨refuse, refuse, refuse, refuse, refuse, refuse⟩

def numberTerm (text : String) : Term :=
  let chars := text.toList
  let based :=
    match chars with
    | '0' :: c :: _ => "xXoObB".toList.contains c
    | _ => false
  if based then .integer text
  else if chars.getLast? == some 'j' || chars.getLast? == some 'J' then .imaginary text
  else if chars.any fun c => c == '.' || c == 'e' || c == 'E' then .float text
  else .integer text

def nextIsClause : Parser Bool := do
  match ← ahead with
  | .word "for" :: _ => return true
  | .word "async" :: .word "for" :: _ => return true
  | _ => return false

def starTarget (primary : Parser Term) : Parser Term := do
  if ← optionalMark "*" then
    let target ← primary
    require target.isTarget
    return .starred target
  else
    let target ← primary
    require target.isTarget
    return target

def loopTargets (primary : Parser Term) : Parser Term := do
  let first ← starTarget primary
  if ← optionalMark "," then
    let rest ← listUntil (nextIsWord "in") (starTarget primary)
    return .tuple (first :: rest)
  else return first

section Rules

variable (g : Level)

def namedExpression : Parser Term := do
  match ← ahead with
  | .word text :: .mark ":=" :: _ =>
    require (!Token.keywords.contains text)
    advance
    advance
    let _ ← g.expression
    return .other .namedExpr
  | _ =>
    let value ← g.expression
    require (!(← nextIsMark ":="))
    return value

def starNamedExpression : Parser Term := do
  if ← optionalMark "*" then return .starred (← g.bitOr)
  else namedExpression g

def starExpression : Parser Term := do
  if ← optionalMark "*" then return .starred (← g.bitOr)
  else g.expression

/-- Whether an expression can begin here; after a comma this tells whether a sequence goes on. -/
def nextIsExpression : Parser Bool := do
  match ← ahead with
  | .word text :: _ =>
    return !Token.keywords.contains text ||
      ["False", "None", "True", "await", "lambda", "not"].contains text
  | .number _ :: _ | .string _ :: _ | .formatted _ :: _ => return true
  | .mark text :: _ => return ["(", "[", "\x7b", "-", "+", "~", "...", "*"].contains text
  | _ => return false

def starExpressions : Parser Term := do
  let first ← starExpression g
  if ← nextIsMark "," then
    let rest ← manyWhile
      (do
        match ← ahead with
        | .mark "," :: rest => return (nextIsExpression rest).any (·.1)
        | _ => return false)
      (do
        mark ","
        starExpression g)
    let _ ← optionalMark ","
    return .tuple (first :: rest)
  else return first

def yieldExpression : Parser Term := do
  word "yield"
  if ← optionalWord "from" then
    let _ ← g.expression
  else if ← nextIsExpression then
    let _ ← starExpressions g
  return .other .yieldExpr

def yieldOrExpressions : Parser Term := do
  if ← nextIsWord "yield" then yieldExpression g else starExpressions g

def clause : Parser Unit := do
  let _ ← optionalWord "async"
  word "for"
  let _ ← loopTargets g.primary
  word "in"
  let _ ← g.disjunction
  let _ ← manyWhile (nextIsWord "if") do
    word "if"
    let _ ← g.disjunction

def clauses (element : Term) : Parser Unit := do
  require
    (match element with
      | .starred _ => false
      | _ => true)
  clause g
  let _ ← manyWhile nextIsClause (clause g)

/-- The rest of a sequence after its first element, up to a closing mark, which is taken. -/
def sequenceRest (close : String) (first : Term) : Parser (List Term) := do
  if ← optionalMark "," then
    let rest ← listUntil (nextIsMark close) (starNamedExpression g)
    mark close
    return first :: rest
  else
    mark close
    return [first]

def parenthesised : Parser Term := do
  mark "("
  if ← optionalMark ")" then return .tuple []
  else if ← nextIsWord "yield" then
    let value ← yieldExpression g
    mark ")"
    return .group value
  else
    let first ← starNamedExpression g
    if ← nextIsClause then
      clauses g first
      mark ")"
      return .other .generator
    else if ← nextIsMark "," then return .tuple (← sequenceRest g ")" first)
    else
      mark ")"
      match first with
      | .starred _ => refuse
      | value => return .group value

def bracketed : Parser Term := do
  mark "["
  if ← optionalMark "]" then return .list []
  else
    let first ← starNamedExpression g
    if ← nextIsClause then
      clauses g first
      mark "]"
      return .other .listComp
    else return .list (← sequenceRest g "]" first)

def dictEntry : Parser Unit := do
  if ← optionalMark "**" then
    let _ ← g.bitOr
  else
    let _ ← g.expression
    mark ":"
    let _ ← g.expression

def dictRest : Parser Term := do
  if ← optionalMark "," then
    let _ ← listUntil (nextIsMark "\x7d") (dictEntry g)
  mark "\x7d"
  return .other .dict

def braced : Parser Term := do
  mark "\x7b"
  if ← optionalMark "\x7d" then return .other .dict
  else if ← nextIsMark "**" then
    dictEntry g
    dictRest g
  else
    let first ← starNamedExpression g
    if ← nextIsMark ":" then
      require
        (match first with
          | .starred _ | .other .namedExpr => false
          | _ => true)
      mark ":"
      let _ ← g.expression
      if ← nextIsClause then
        clauses g first
        mark "\x7d"
        return .other .dictComp
      else dictRest g
    else if ← nextIsClause then
      clauses g first
      mark "\x7d"
      return .other .setComp
    else
      let _ ← sequenceRest g "\x7d" first
      return .other .set

/-- The expression of a replacement field, perhaps with the mark that shows its text. -/
def fieldTerm (tokens : List Token) : Option Term :=
  let parser : Parser Term := do
    let value ← yieldOrExpressions g
    let _ ← optionalMark "="
    require (← atEnd)
    return value
  (parser tokens).map (·.1)

def piece : Parser Piece := do
  match ← ahead with
  | .string text :: _ =>
    advance
    return .plain text
  | .formatted fields :: _ =>
    advance
    match fields.mapM (fieldTerm g) with
    | some terms => return .formatted terms
    | none => refuse
  | _ => refuse

def nextIsPiece : Parser Bool := do
  match ← ahead with
  | .string _ :: _ | .formatted _ :: _ => return true
  | _ => return false

def atom : Parser Term := do
  match ← ahead with
  | .word text :: _ =>
    require (!Token.keywords.contains text || Term.constants.contains text)
    advance
    return .name text
  | .number text :: _ =>
    advance
    return numberTerm text
  | .string _ :: _ | .formatted _ :: _ =>
    let first ← piece g
    return .strings (first :: (← manyWhile nextIsPiece (piece g)))
  | .mark "..." :: _ =>
    advance
    return .ellipsis
  | .mark "(" :: _ => parenthesised g
  | .mark "[" :: _ => bracketed g
  | .mark "\x7b" :: _ => braced g
  | _ => refuse

/-- Which arguments may still come: after a named one none without a name, after a gathered
mapping no gathered sequence either. -/
inductive ArgumentPhase
  | positional | named | mappings
  deriving DecidableEq

def argument (phase : ArgumentPhase) : Parser (ArgumentPhase × Passing × Term) := do
  match ← ahead with
  | .mark "**" :: _ =>
    advance
    return (.mappings, .doubleStarred, ← g.expression)
  | .mark "*" :: _ =>
    require (phase != .mappings)
    advance
    return (phase, .starred, ← g.expression)
  | .word text :: .mark "=" :: _ =>
    require (!Token.keywords.contains text)
    advance
    advance
    let next := if phase = .mappings then ArgumentPhase.mappings else .named
    return (next, .keyword text, ← g.expression)
  | _ =>
    require (phase = .positional)
    return (.positional, .positional, ← namedExpression g)

def argumentsFrom : Nat → ArgumentPhase → Parser (List (Passing × Term))
  | 0, _ => refuse
  | fuel + 1, phase => do
    if ← nextIsMark ")" then return []
    else
      let (next, arg) ← argument g phase
      if ← optionalMark "," then return arg :: (← argumentsFrom fuel next)
      else
        require (← nextIsMark ")")
        return [arg]

/-- The arguments of a call, with the closing parenthesis. A generator may stand alone. -/
def arguments : Parser (List (Passing × Term)) := do
  if ← optionalMark ")" then return []
  else
    let (phase, passing, value) ← argument g .positional
    if ← nextIsClause then
      require (passing = .positional)
      clauses g value
      mark ")"
      return [(.positional, .other .generator)]
    else if ← optionalMark "," then
      let rest ← argumentsFrom g ((← ahead).length + 1) phase
      mark ")"
      return (passing, value) :: rest
    else
      mark ")"
      return [(passing, value)]

def optionalBefore (marks : List String) : Parser (Option Term) := do
  match ← ahead with
  | .mark text :: _ => if marks.contains text then return none else return some (← g.expression)
  | _ => return some (← g.expression)

def sliceRest (lower : Option Term) : Parser Index := do
  mark ":"
  let upper ← optionalBefore g [":", ",", "]"]
  if ← optionalMark ":" then
    let step ← optionalBefore g [",", "]"]
    return .slice lower upper step
  else return .slice lower upper none

def index : Parser Index := do
  if ← nextIsMark ":" then sliceRest g none
  else if ← optionalMark "*" then return .item (← g.expression)
  else
    let value ← namedExpression g
    if ← nextIsMark ":" then
      match value with
      | .other .namedExpr => refuse
      | lower => sliceRest g (some lower)
    else return .item value

def indices : Parser (List Index) := do
  require (!(← nextIsMark "]"))
  let items ← listUntil (nextIsMark "]") (index g)
  mark "]"
  return items

def primary : Parser Term := do
  let first ← atom g
  let follower : Parser (Option String) := do
    match ← ahead with
    | .mark text :: _ => return if [".", "(", "["].contains text then some text else none
    | _ => return none
  extend follower (fun value text => do
    advance
    if text = "." then return .member value (← name)
    else if text = "(" then return .call value (← arguments g)
    else return .subscript value (← indices g)) first

def awaited : Parser Term := do
  if ← optionalWord "await" then
    let _ ← primary g
    return .other .awaitExpr
  else primary g

/-- A power, which binds its right side more loosely than its left. -/
def power : Parser Term := do
  let base ← awaited g
  if ← optionalMark "**" then return .binary .power base (← g.factor)
  else return base

def factor : Parser Term := do
  if ← optionalMark "-" then return .unary .minus (← g.factor)
  else if ← optionalMark "+" then return .unary .plus (← g.factor)
  else if ← optionalMark "~" then return .unary .bitInvert (← g.factor)
  else power g

def binaryChain (operators : List BinaryOp) (operand : Parser Term) : Parser Term := do
  let first ← operand
  let operator : Parser (Option BinaryOp) := do
    match ← ahead with
    | .mark text :: _ => return operators.find? fun op => op.text == text
    | _ => return none
  extend operator (fun left op => do
    advance
    return .binary op left (← operand)) first

def bitOr : Parser Term :=
  let term := binaryChain [.multiply, .divide, .floorDivide, .modulo, .matrixMultiply] (factor g)
  let sum := binaryChain [.add, .subtract] term
  let shift := binaryChain [.leftShift, .rightShift] sum
  binaryChain [.bitOr] (binaryChain [.bitXor] (binaryChain [.bitAnd] shift))

def nextComparison : Parser (Option (CompareOp × Nat)) := do
  match ← ahead with
  | .mark "==" :: _ => return some (.equal, 1)
  | .mark "!=" :: _ => return some (.notEqual, 1)
  | .mark "<" :: _ => return some (.less, 1)
  | .mark "<=" :: _ => return some (.lessEqual, 1)
  | .mark ">" :: _ => return some (.greater, 1)
  | .mark ">=" :: _ => return some (.greaterEqual, 1)
  | .word "in" :: _ => return some (.isIn, 1)
  | .word "not" :: .word "in" :: _ => return some (.notIn, 2)
  | .word "is" :: .word "not" :: _ => return some (.isNot, 2)
  | .word "is" :: _ => return some (.is, 1)
  | _ => return none

def comparisonTail : Parser (CompareOp × Term) := do
  match ← nextComparison with
  | some (op, width) =>
    modify (List.drop width)
    return (op, ← bitOr g)
  | none => refuse

def comparison : Parser Term := do
  let left ← bitOr g
  let rest ← manyWhile (do return (← nextComparison).isSome) (comparisonTail g)
  return if rest.isEmpty then left else .comparison left rest

def inversion : Parser Term := do
  if ← optionalWord "not" then return .unary .not (← g.inversion)
  else comparison g

def booleanChain (op : BooleanOp) (operand : Parser Term) : Parser Term := do
  let first ← operand
  let rest ← manyWhile (nextIsWord op.text) do
    word op.text
    operand
  return rest.foldl (.boolean op) first

def disjunction : Parser Term := booleanChain .or (booleanChain .and (inversion g))

/-- Whether parameters have type hints, and the mark that ends them. -/
structure ParamStyle where
  hints : Bool
  close : String

def ParamStyle.definition : ParamStyle := ⟨true, ")"⟩

def ParamStyle.lambda : ParamStyle := ⟨false, ":"⟩

/-- Where a parameter list stands: what has been seen before the next parameter. -/
structure ParamState where
  sawAny : Bool := false
  sawDefault : Bool := false
  sawSlash : Bool := false
  sawStar : Bool := false
  /-- A lone star needs a parameter after it. -/
  needsOne : Bool := false
  sawMapping : Bool := false

def param (style : ParamStyle) (starred : Bool) : Parser Param := do
  let text ← name
  let hint ←
    if style.hints then
      if ← optionalMark ":" then
        if starred && (← nextIsMark "*") then
          advance
          pure (some (Term.starred (← g.bitOr)))
        else pure (some (← g.expression))
      else pure none
    else pure none
  let default ← if ← optionalMark "=" then pure (some (← g.expression)) else pure none
  return .mk text hint default

def Param.hasDefault : Param → Bool
  | .mk _ _ default => default.isSome

def paramItem (style : ParamStyle) (state : ParamState) :
    Parser (ParamState × Option Param) := do
  require (!state.sawMapping)
  if ← optionalMark "/" then
    require (state.sawAny && !state.sawSlash && !state.sawStar)
    return ({ state with sawSlash := true }, none)
  else if ← optionalMark "**" then
    require (!state.needsOne)
    let p ← param g style false
    require (!Param.hasDefault p)
    return ({ state with sawMapping := true }, some p)
  else if ← optionalMark "*" then
    require (!state.sawStar)
    if ← nextIsMark "," then return ({ state with sawStar := true, needsOne := true }, none)
    else
      let p ← param g style true
      require (!Param.hasDefault p)
      return ({ state with sawStar := true }, some p)
  else
    let p ← param g style false
    require (state.sawStar || !state.sawDefault || Param.hasDefault p)
    let sawDefault := state.sawDefault || Param.hasDefault p
    return ({ state with sawAny := true, needsOne := false, sawDefault := sawDefault }, some p)

def paramsFrom (style : ParamStyle) : Nat → ParamState → Parser (List Param)
  | 0, _ => refuse
  | fuel + 1, state => do
    if ← nextIsMark style.close then
      require (!state.needsOne)
      return []
    else
      let (next, found) ← paramItem g style state
      let rest ←
        if ← optionalMark "," then paramsFrom style fuel next
        else
          require ((← nextIsMark style.close) && !next.needsOne)
          pure []
      return found.toList ++ rest

/-- A parameter list up to the closing mark, which is not taken. -/
def params (style : ParamStyle) : Parser (List Param) := do
  paramsFrom g style ((← ahead).length + 1) {}

def lambda : Parser Term := do
  word "lambda"
  let list ← params g .lambda
  mark ":"
  return .lambda list (← g.expression)

/-- A lambda expression, or operands that a condition may choose between. -/
def expression : Parser Term := do
  if ← nextIsWord "lambda" then lambda g
  else
    let body ← disjunction g
    if ← optionalWord "if" then
      let test ← disjunction g
      word "else"
      return .conditional body test (← g.expression)
    else return body

end Rules

/-- The rules of one level over those of the level below. -/
def Level.above (g : Level) : Level where
  expression := Grammar.expression g
  disjunction := Grammar.disjunction g
  inversion := Grammar.inversion g
  bitOr := Grammar.bitOr g
  factor := Grammar.factor g
  primary := Grammar.primary g

def Level.ofDepth : Nat → Level
  | 0 => .bottom
  | depth + 1 => (ofDepth depth).above

end TreePass.Source.Grammar
