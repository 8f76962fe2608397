import TreePass.Source.Grammar.Pattern

/-!
The grammar of statements and of whole source texts.
-/

set_option autoImplicit false
set_option relaxedAutoImplicit false

namespace TreePass.Source.Grammar

section Small

variable (g : Level)

def nextAugmented : Parser (Option BinaryOp) := do
  match ← ahead with
  | .mark text :: _ => return BinaryOp.all.find? fun op => op.text ++ "=" == text
  | _ => return none

def assignmentChain : Nat → Term → Parser (List Term × Term)
  | 0, _ => refuse
  | fuel + 1, target => do
    require target.isStarTarget
    mark "="
    if ← nextIsWord "yield" then
      let value ← yieldExpression g
      require (!(← nextIsMark "="))
      return ([target], value)
    else
      let value ← starExpressions g
      if ← nextIsMark "=" then
        let (targets, last) ← assignmentChain fuel value
        return (target :: targets, last)
      else return ([target], value)

def expressionStatement : Parser Small := do
  let first ← starExpressions g
  if ← nextIsMark ":" then
    require (first.isVariable || first.isPart)
    mark ":"
    let hint ← g.expression
    let value ← if ← optionalMark "=" then pure (some (← yieldOrExpressions g)) else pure none
    return .typed first hint value
  else if ← nextIsMark "=" then
    let (targets, value) ← assignmentChain g ((← ahead).length + 1) first
    return .assign targets value
  else
    match ← nextAugmented with
    | some op =>
      require first.isSingleTarget
      advance
      return .augmented first op (← yieldOrExpressions g)
    | none => return .expression first

def importedModule : Parser Unit := do
  let _ ← dottedName
  if ← optionalWord "as" then
    let _ ← name

def importedName : Parser Unit := do
  let _ ← name
  if ← optionalWord "as" then
    let _ ← name

def nextIsDots : Parser Bool := do return (← nextIsMark ".") || (← nextIsMark "...")

def importFrom : Parser Unit := do
  word "from"
  let dots ← manyWhile nextIsDots advance
  if dots.isEmpty || !(← nextIsWord "import") then
    let _ ← dottedName
  word "import"
  if ← optionalMark "*" then return
  else if ← optionalMark "(" then
    require (!(← nextIsMark ")"))
    let _ ← listUntil (nextIsMark ")") importedName
    mark ")"
  else
    let _ ← commaList importedName

def deletion : Parser Unit := do
  word "del"
  let target : Parser Unit := do require (← primary g).isDeletable
  target
  let _ ← manyWhile
    (do
      match ← ahead with
      | .mark "," :: rest => return (nextIsExpression rest).any (·.1)
      | _ => return false)
    (do
      mark ","
      target)
  let _ ← optionalMark ","

def typeParams : Parser Unit := do
  if ← optionalMark "[" then
    require (!(← nextIsMark "]"))
    let _ ← listUntil (nextIsMark "]") do
      if (← optionalMark "*") || (← optionalMark "**") then
        let _ ← name
      else
        let _ ← name
        if ← optionalMark ":" then
          let _ ← g.expression
      if ← optionalMark "=" then
        let _ ← starExpression g
    mark "]"

def keywordStatement (text : String) : Parser Small := do
  match text with
  | "pass" =>
    advance
    return .pass
  | "break" =>
    advance
    return .breaks
  | "continue" =>
    advance
    return .continues
  | "return" =>
    advance
    return .returns (← if ← nextIsExpression then some <$> starExpressions g else pure none)
  | "raise" =>
    advance
    if ← nextIsExpression then
      let _ ← g.expression
      if ← optionalWord "from" then
        let _ ← g.expression
    return .other .raiseStmt
  | "del" =>
    deletion g
    return .other .delStmt
  | "assert" =>
    advance
    let _ ← g.expression
    if ← optionalMark "," then
      let _ ← g.expression
    return .other .assertStmt
  | "global" =>
    advance
    let _ ← commaList name
    return .other .globalStmt
  | "nonlocal" =>
    advance
    let _ ← commaList name
    return .other .nonlocalStmt
  | "import" =>
    advance
    let _ ← commaList importedModule
    return .other .importStmt
  | "from" =>
    importFrom
    return .other .importFrom
  | "yield" => return .expression (← yieldExpression g)
  | _ => expressionStatement g

def typeAlias : Parser Small := do
  advance
  let _ ← name
  typeParams g
  mark "="
  let _ ← g.expression
  return .other .typeAlias

def small : Parser Small := do
  match ← ahead with
  | .word "type" :: .word next :: _ =>
    if Token.keywords.contains next then expressionStatement g else typeAlias g
  | .word text :: _ => keywordStatement g text
  | _ => expressionStatement g

def line : Parser Statement := do
  let first ← small g
  let rest ← manyWhile
    (do
      match ← ahead with
      | .mark ";" :: .newline :: _ => return false
      | .mark ";" :: _ => return true
      | _ => return false)
    (do
      mark ";"
      small g)
  let _ ← optionalMark ";"
  newline
  return .line (first :: rest)

end Small

section Compound

variable (g : Level) (block : Parser (List Statement))

def suite : Parser (List Statement) := do
  mark ":"
  block

def elseSuite : Parser (Option (List Statement)) := do
  if ← optionalWord "else" then return some (← suite block) else return none

def alternative : Nat → Parser Alternative
  | 0 => refuse
  | fuel + 1 => do
    if ← optionalWord "elif" then
      let test ← namedExpression g
      let body ← suite block
      return .elseIf test body (← alternative fuel)
    else
      match ← elseSuite block with
      | some body => return .otherwise body
      | none => return .nothing

def conditional : Parser Statement := do
  word "if"
  let test ← namedExpression g
  let body ← suite block
  return .conditional test body (← alternative g block ((← ahead).length + 1))

def whileLoop : Parser Statement := do
  word "while"
  let test ← namedExpression g
  let body ← suite block
  return .whileLoop test body (← elseSuite block).isSome

def forLoop (asynchronous : Bool) : Parser Statement := do
  word "for"
  let target ← loopTargets (primary g)
  word "in"
  let iter ← starExpressions g
  let body ← suite block
  return .forLoop asynchronous target iter body (← elseSuite block).isSome

def definition (asynchronous : Bool) (decorators : List Term) : Parser Statement := do
  word "def"
  let text ← name
  typeParams g
  mark "("
  let list ← params g .definition
  mark ")"
  let returns ← if ← optionalMark "->" then some <$> g.expression else pure none
  let body ← suite block
  return .define (.mk asynchronous decorators text list returns body)

def classDefinition : Parser Statement := do
  word "class"
  let _ ← name
  typeParams g
  if ← optionalMark "(" then
    let _ ← argumentsFrom g ((← ahead).length + 1) .positional
    mark ")"
  let _ ← suite block
  return .other .classDef

def withItem : Parser Unit := do
  let _ ← g.expression
  if ← optionalWord "as" then
    let _ ← starTarget (primary g)

/-- A `with` statement; its items may stand in parentheses. -/
def withStatement : Parser Statement := do
  word "with"
  let inParentheses : Parser Unit := do
    mark "("
    require (!(← nextIsMark ")"))
    let _ ← listUntil (nextIsMark ")") (withItem g)
    mark ")"
    require (← nextIsMark ":")
  let bare : Parser Unit := do
    let _ ← commaList (withItem g)
  inParentheses <|> bare
  let _ ← suite block
  return .other .withStmt

/-- A handler of a `try` statement, and whether it is starred. -/
def handler : Parser Bool := do
  word "except"
  let starred ← optionalMark "*"
  if starred || !(← nextIsMark ":") then
    let _ ← g.expression
    if ← optionalWord "as" then
      let _ ← name
  let _ ← suite block
  return starred

def tryStatement : Parser Statement := do
  word "try"
  let _ ← suite block
  let handlers ← manyWhile (nextIsWord "except") (handler g block)
  let starred := handlers.any id
  require (!starred || handlers.all id)
  if !handlers.isEmpty then
    let _ ← elseSuite block
  let final ← optionalWord "finally"
  if final then
    let _ ← suite block
  require (final || !handlers.isEmpty)
  return .other (if starred then .tryStar else .tryStmt)

def case : Parser Unit := do
  word "case"
  casePattern g
  if ← optionalWord "if" then
    let _ ← namedExpression g
  let _ ← suite block

def matchHead : Parser Unit := do
  word "match"
  let first ← starNamedExpression g
  if ← optionalMark "," then
    let _ ← listUntil (nextIsMark ":") (starNamedExpression g)
  else
    require
      (match first with
        | .starred _ => false
        | _ => true)
  mark ":"
  newline

def matchBody : Parser Statement := do
  indent
  case g block
  let _ ← manyWhile (nextIsWord "case") (case g block)
  dedent
  return .other .matchStmt

def decorated : Parser Statement := do
  let decorators ← manyWhile (nextIsMark "@") do
    mark "@"
    let value ← namedExpression g
    newline
    return value
  if ← nextIsWord "class" then classDefinition g block
  else if ← optionalWord "async" then definition g block true decorators
  else definition g block false decorators

def asynchronous : Parser Statement := do
  word "async"
  if ← nextIsWord "def" then definition g block true []
  else if ← nextIsWord "for" then forLoop g block true
  else withStatement g block

def statement : Parser Statement := do
  match ← ahead with
  | .mark "@" :: _ => decorated g block
  | .word "def" :: _ => definition g block false []
  | .word "async" :: _ => asynchronous g block
  | .word "if" :: _ => conditional g block
  | .word "class" :: _ => classDefinition g block
  | .word "with" :: _ => withStatement g block
  | .word "for" :: _ => forLoop g block false
  | .word "try" :: _ => tryStatement g block
  | .word "while" :: _ => whileLoop g block
  | .word "match" :: _ =>
    match matchHead g (← ahead) with
    | some (_, rest) =>
      set rest
      matchBody g block
    | none => line g
  | _ => line g

def blockOver : Parser (List Statement) := do
  match ← ahead with
  | .newline :: _ =>
    newline
    indent
    let first ← statement g block
    let rest ← manyWhile
      (do
        match ← ahead with
        | .dedent :: _ => return false
        | _ => return true)
      (statement g block)
    dedent
    return first :: rest
  | _ => return [← line g]

end Compound

def block (g : Level) : Nat → Parser (List Statement)
  | 0 => refuse
  | depth + 1 => blockOver g (block g depth)

def module (tokens : List Token) : Option (List Statement) :=
  let depth := Token.weights tokens + 1
  let g := Level.ofDepth depth
  let parser : Parser (List Statement) := do
    let statements ← manyWhile (do return !(← atEnd)) (statement g (block g depth))
    require (← atEnd)
    return statements
  (parser tokens).map (·.1)

end TreePass.Source.Grammar
