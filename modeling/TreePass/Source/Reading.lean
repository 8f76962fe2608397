import TreePass.Source.Grammar.Statement
import TreePass.Source.Lexer
import TreePass.Source.Literal
import TreePass.Text.Margin

/-!
Reading function definitions. A block becomes a call of `\x7b` on its statements, an assignment a
call of `=`, a definition inside a body an assignment of a function literal. Keywords become calls
of the keyword, operators calls of the operator text; signs are `u-` and `u+`. A chain of
comparisons becomes one call of `compare`, a member access a call of `.` and a subscript a call of
`[`. What has no place in this list is refused.
-/

set_option autoImplicit false
set_option relaxedAutoImplicit false

namespace TreePass.Source

inductive ReadError
  /-- The text does not follow the grammar. -/
  | grammar
  /-- Adjacent literals of bytes and characters. -/
  | mixedStrings
  /-- A literal without a value. -/
  | literal
  /-- A construct that no expression stands for. -/
  | unsupported (construct : String) (detail : Option String)
  /-- No function of the given name, or none at all. -/
  | noFunction (name : Option String)
  deriving DecidableEq

def ReadError.message : ReadError → String
  | grammar => "the text does not follow the grammar"
  | mixedStrings => "cannot concatenate string and bytes"
  | literal => "malformed literal"
  | unsupported construct detail =>
    "Unsupported syntax: " ++ construct ++
      (match detail with
        | some text => " (" ++ text ++ ")"
        | none => "")
  | noFunction none | noFunction (some "") => "No function definition found"
  | noFunction (some name) => "No function named '" ++ name ++ "' found"

namespace Reading

abbrev Result (α : Type) := Except ReadError α

def refuse {α : Type} (construct : String) : Result α := .error (.unsupported construct none)

def atomic (value : Value) : Expr := .atomic 0 value

def symbol (name : String) : Expr := .symbol 0 name

def call (name : String) (args : List Expr) : Expr :=
  .call 0 (symbol name) (args.map (none, ·))

def literal (value : Option Value) : Result Expr :=
  match value with
  | some v => .ok (atomic v)
  | none => .error .literal

def nameExpr (text : String) : Expr :=
  if text = "True" then atomic (.bool true)
  else if text = "False" then atomic (.bool false)
  else if text = "None" then atomic .none
  else symbol text

variable (characters : CharacterNames)

/-- A single string literal, or the concatenation of several. A formatted literal alone is
refused. -/
def stringsExpr (pieces : List Piece) : Result Expr :=
  match pieces with
  | [.formatted _] => refuse "FormattedString"
  | _ => literal (Literal.pieces? characters pieces)

def compareArgs : List (CompareOp × Expr) → List Expr
  | [] => []
  | (op, operand) :: rest => atomic (.str op.text) :: operand :: compareArgs rest

/-- One comparison is a call of its operator; several are a call of `compare`. -/
def comparisonExpr (left : Expr) (rest : List (CompareOp × Expr)) : Expr :=
  match rest with
  | [(op, right)] => call op.text [left, right]
  | _ => call "compare" (left :: compareArgs rest)

mutual

def expr : Term → Result Expr
  | .name text => .ok (nameExpr text)
  | .integer text => literal ((Literal.integer? text).map .int)
  | .float text => literal ((Number.Numeral.float? text).map .float)
  | .imaginary text => literal (Literal.imaginary? text)
  | .strings pieces => stringsExpr characters pieces
  | .ellipsis => .ok (atomic .ellipsis)
  | .binary op left right => do
    let left ← expr left
    let right ← expr right
    return call op.text [left, right]
  | .unary op operand => do return call op.text [← expr operand]
  | .boolean op left right => do
    let left ← expr left
    let right ← expr right
    return call op.text [left, right]
  | .comparison left rest => do
    let left ← expr left
    let rest ← operands rest
    return comparisonExpr left rest
  | .call callee args => do
    let args ← arguments args
    return .call 0 (← expr callee) args
  | .member value name => do return call "." [← expr value, atomic (.str name)]
  | .subscript value items => do
    let value ← expr value
    return call "[" (value :: (← indices items))
  | .lambda params body => do
    let params ← parameters params
    return call "function" [.pairlist 0 params, ← expr body]
  | .conditional body test otherwise => do
    let test ← expr test
    let body ← expr body
    let otherwise ← expr otherwise
    return call "if" [test, body, otherwise]
  | .tuple elements => do return call "tuple" (← sequence elements)
  | .list elements => do return call "list" (← sequence elements)
  | .starred _ => refuse "StarredElement"
  | .group inner => expr inner
  | .other construct => refuse construct.label

def operands : List (CompareOp × Term) → Result (List (CompareOp × Expr))
  | [] => .ok []
  | (op, term) :: rest => do
    let operand ← expr term
    return (op, operand) :: (← operands rest)

/-- Arguments with their names; gathered ones are refused. -/
def arguments : List (Passing × Term) → Result (List (Option String × Expr))
  | [] => .ok []
  | (.positional, term) :: rest => do
    let value ← expr term
    return (none, value) :: (← arguments rest)
  | (.keyword name, term) :: rest => do
    let value ← expr term
    return (some name, value) :: (← arguments rest)
  | (.starred, _) :: _ => refuse "star arguments"
  | (.doubleStarred, _) :: _ => refuse "star arguments"

/-- The items of a subscript; a slice is a call of `slice` with three arguments. -/
def indices : List Index → Result (List Expr)
  | [] => .ok []
  | .item term :: rest => do
    let value ← expr term
    return value :: (← indices rest)
  | .slice lower upper step :: rest => do
    let lower ← bound lower
    let upper ← bound upper
    let step ← bound step
    return call "slice" [lower, upper, step] :: (← indices rest)

/-- A bound of a slice; a missing one is the empty literal. -/
def bound : Option Term → Result Expr
  | none => .ok (atomic .none)
  | some term => expr term

/-- Parameters with their defaults; the ones that gather keep their bare names. -/
def parameters : List Param → Result (List (String × Option Expr))
  | [] => .ok []
  | .mk name _ none :: rest => do return (name, none) :: (← parameters rest)
  | .mk name _ (some term) :: rest => do
    let default ← expr term
    return (name, some default) :: (← parameters rest)

/-- The elements of a tuple or a list; starred ones are refused. -/
def sequence : List Term → Result (List Expr)
  | [] => .ok []
  | .starred _ :: _ => refuse "starred element"
  | term :: rest => do
    let value ← expr term
    return value :: (← sequence rest)

end

def targetClass : Term → String
  | .tuple _ => "Tuple"
  | .list _ => "List"
  | .starred _ => "StarredElement"
  | .group inner => targetClass inner
  | _ => "BaseExpression"

def target (term : Term) : Result Expr :=
  match term.ungroup with
  | .name _ | .member _ _ | .subscript _ _ => expr characters term
  | _ => .error (.unsupported "assignment target" (some (targetClass term)))

def loopTarget (term : Term) : Result Expr :=
  match term.ungroup with
  | .name text => .ok (symbol text)
  | _ => .error (.unsupported "for loop target" (some "only a bare name is supported"))

def assignments : List Term → Expr → Result Expr
  | [], value => .ok value
  | term :: rest, value => do
    let inner ← assignments rest value
    return call "=" [← target characters term, inner]

def small : Small → Result Expr
  | .assign targets value => do assignments characters targets (← expr characters value)
  | .augmented place op value => do
    let assigned ← target characters place
    let current ← target characters place
    let change ← expr characters value
    return call "=" [assigned, call op.text [current, change]]
  | .typed _ _ none => .ok (atomic .none)
  | .typed place _ (some value) => do
    let assigned ← target characters place
    return call "=" [assigned, ← expr characters value]
  | .expression value => expr characters value
  | .returns none => .ok (call "return" [])
  | .returns (some value) => do return call "return" [← expr characters value]
  | .pass => .ok (atomic .none)
  | .breaks => .ok (call "break" [])
  | .continues => .ok (call "continue" [])
  | .other construct => refuse construct.label

def smalls : List Small → Result (List Expr)
  | [] => .ok []
  | first :: rest => do
    let value ← small characters first
    return value :: (← smalls rest)

mutual

def statement : Statement → Result (List Expr)
  | .line list => smalls characters list
  | .conditional test body rest => do
    let test ← expr characters test
    let body ← statements body
    return [call "if" (test :: call "\x7b" body :: (← alternative rest))]
  | .forLoop asynchronous variable_ iter body hasElse =>
    if asynchronous || hasElse then refuse "for/else or async for"
    else do
      let variable_ ← loopTarget variable_
      let iter ← expr characters iter
      return [call "for" [variable_, iter, call "\x7b" (← statements body)]]
  | .whileLoop test body hasElse =>
    if hasElse then refuse "while/else"
    else do
      let test ← expr characters test
      return [call "while" [test, call "\x7b" (← statements body)]]
  | .define d => do
    let (params, body) ← definition d
    return [call "=" [symbol d.name, call "function" [params, body]]]
  | .other construct => refuse construct.label

def statements : List Statement → Result (List Expr)
  | [] => .ok []
  | first :: rest => do
    let values ← statement first
    return values ++ (← statements rest)

def alternative : Alternative → Result (List Expr)
  | .nothing => .ok []
  | .otherwise body => do return [call "\x7b" (← statements body)]
  | .elseIf test body rest => do
    let test ← expr characters test
    let body ← statements body
    return [call "if" (test :: call "\x7b" body :: (← alternative rest))]

def definition : Definition → Result (Expr × Expr)
  | .mk asynchronous _ name params _ body =>
    if asynchronous then .error (.unsupported "async def" (some name))
    else do
      let params ← parameters characters params
      return (.pairlist 0 params, call "\x7b" (← statements body))

end

end Reading

/-- The statements of a source text, after its common margin is removed. -/
def parse (source : String) : Except ReadError (List Statement) :=
  match Lexer.tokens (Text.Margin.removeMargin source.toList) with
  | none => .error .grammar
  | some tokens =>
    match Grammar.module tokens with
    | none => .error .grammar
    | some statements => if Token.mixesAnywhere tokens then .error .mixedStrings else .ok statements

def definitions (statements : List Statement) : List Definition :=
  statements.filterMap fun
    | .define d => some d
    | _ => none

def functionNames (source : String) : Except ReadError (List String) := do
  return (definitions (← parse source)).map Definition.name

def findDefinition (source : String) (name : Option String) : Except ReadError Definition := do
  let found := (definitions (← parse source)).find? fun d =>
    match name with
    | some text => d.name == text
    | none => true
  match found with
  | some d => return d
  | none => throw (.noFunction name)

end TreePass.Source
