/-!
Syntax trees of source texts. Constructs that no expression tree can stand for are kept by their
class alone.
-/

set_option autoImplicit false
set_option relaxedAutoImplicit false

namespace TreePass.Source

inductive BinaryOp
  | add | subtract | multiply | divide | floorDivide | modulo | power | matrixMultiply
  | leftShift | rightShift | bitAnd | bitOr | bitXor
  deriving DecidableEq

inductive UnaryOp
  | minus | plus | bitInvert | not
  deriving DecidableEq

/-- Operators that may leave their second operand alone. -/
inductive BooleanOp
  | and | or
  deriving DecidableEq

inductive CompareOp
  | equal | notEqual | less | lessEqual | greater | greaterEqual | isIn | notIn | is | isNot
  deriving DecidableEq

def BinaryOp.text : BinaryOp → String
  | add => "+"
  | subtract => "-"
  | multiply => "*"
  | divide => "/"
  | floorDivide => "//"
  | modulo => "%"
  | power => "**"
  | matrixMultiply => "@"
  | leftShift => "<<"
  | rightShift => ">>"
  | bitAnd => "&"
  | bitOr => "|"
  | bitXor => "^"

def BinaryOp.all : List BinaryOp :=
  [add, subtract, multiply, divide, floorDivide, modulo, power, matrixMultiply, leftShift,
    rightShift, bitAnd, bitOr, bitXor]

/-- The symbol of an operator; signs are kept apart from sums and differences. -/
def UnaryOp.text : UnaryOp → String
  | minus => "u-"
  | plus => "u+"
  | bitInvert => "~"
  | not => "not"

def BooleanOp.text : BooleanOp → String
  | and => "and"
  | or => "or"

def CompareOp.text : CompareOp → String
  | equal => "=="
  | notEqual => "!="
  | less => "<"
  | lessEqual => "<="
  | greater => ">"
  | greaterEqual => ">="
  | isIn => "in"
  | notIn => "not in"
  | is => "is"
  | isNot => "is not"

inductive Construct
  | delStmt | globalStmt | nonlocalStmt | assertStmt | raiseStmt | importStmt | importFrom
  | typeAlias | withStmt | tryStmt | tryStar | classDef | matchStmt
  | dict | set | listComp | setComp | dictComp | generator | awaitExpr | yieldExpr | namedExpr
  deriving DecidableEq

def Construct.label : Construct → String
  | delStmt => "Del"
  | globalStmt => "Global"
  | nonlocalStmt => "Nonlocal"
  | assertStmt => "Assert"
  | raiseStmt => "Raise"
  | importStmt => "Import"
  | importFrom => "ImportFrom"
  | typeAlias => "TypeAlias"
  | withStmt => "With"
  | tryStmt => "Try"
  | tryStar => "TryStar"
  | classDef => "ClassDef"
  | matchStmt => "Match"
  | dict => "Dict"
  | set => "Set"
  | listComp => "ListComp"
  | setComp => "SetComp"
  | dictComp => "DictComp"
  | generator => "GeneratorExp"
  | awaitExpr => "Await"
  | yieldExpr => "Yield"
  | namedExpr => "NamedExpr"

inductive Passing
  | positional | keyword (name : String) | starred | doubleStarred
  deriving DecidableEq

mutual

/-- An expression of the source language. -/
inductive Term
  | name (text : String)
  | integer (text : String)
  | float (text : String)
  | imaginary (text : String)
  /-- One or more adjacent string literals. -/
  | strings (pieces : List Piece)
  | ellipsis
  | binary (op : BinaryOp) (left right : Term)
  | unary (op : UnaryOp) (operand : Term)
  | boolean (op : BooleanOp) (left right : Term)
  | comparison (left : Term) (rest : List (CompareOp × Term))
  | call (callee : Term) (args : List (Passing × Term))
  | member (value : Term) (name : String)
  | subscript (value : Term) (items : List Index)
  | lambda (params : List Param) (body : Term)
  | conditional (body test otherwise : Term)
  | tuple (elements : List Term)
  | list (elements : List Term)
  | starred (value : Term)
  /-- An expression in parentheses. -/
  | group (inner : Term)
  | other (construct : Construct)

/-- A string literal: as written, or formatted with the expressions of its fields. -/
inductive Piece
  | plain (text : String)
  | formatted (fields : List Term)

inductive Index
  | item (value : Term)
  | slice (lower upper step : Option Term)

/-- A formal parameter with an optional type hint and an optional default. -/
inductive Param
  | mk (name : String) (hint default : Option Term)

end

inductive Small
  | assign (targets : List Term) (value : Term)
  | augmented (target : Term) (op : BinaryOp) (value : Term)
  | typed (target hint : Term) (value : Option Term)
  | expression (value : Term)
  | returns (value : Option Term)
  | pass
  | breaks
  | continues
  | other (construct : Construct)

mutual

inductive Statement
  | line (smalls : List Small)
  | conditional (test : Term) (body : List Statement) (rest : Alternative)
  | forLoop (asynchronous : Bool) (target iter : Term) (body : List Statement) (hasElse : Bool)
  | whileLoop (test : Term) (body : List Statement) (hasElse : Bool)
  | define (definition : Definition)
  | other (construct : Construct)

inductive Alternative
  | nothing
  | otherwise (body : List Statement)
  | elseIf (test : Term) (body : List Statement) (rest : Alternative)

/-- A function definition. -/
inductive Definition
  | mk (asynchronous : Bool) (decorators : List Term) (name : String) (params : List Param)
      (returns : Option Term) (body : List Statement)

end

namespace Definition

def name : Definition → String
  | mk _ _ name _ _ _ => name

end Definition

namespace Term

instance : Inhabited Term := ⟨ellipsis⟩

def ungroup : Term → Term
  | group inner => ungroup inner
  | term => term

def constants : List String := ["True", "False", "None"]

def isVariable : Term → Bool
  | name text => !constants.contains text
  | _ => false

def isPart : Term → Bool
  | member _ _ | subscript _ _ => true
  | _ => false

def isSingleTarget : Term → Bool
  | group inner => isSingleTarget inner
  | term => term.isVariable || term.isPart

mutual

def isTarget : Term → Bool
  | group inner => isTarget inner
  | tuple elements => areTargets elements
  | list elements => areTargets elements
  | term => term.isVariable || term.isPart

def areTargets : List Term → Bool
  | [] => true
  | starred value :: rest => isTarget value && areTargets rest
  | term :: rest => isTarget term && areTargets rest

end

/-- What may stand before an equals sign: a target, perhaps starred. -/
def isStarTarget : Term → Bool
  | starred value => value.isTarget
  | term => term.isTarget

mutual

def isDeletable : Term → Bool
  | group inner => isDeletable inner
  | tuple elements => areDeletable elements
  | list elements => areDeletable elements
  | term => term.isVariable || term.isPart

def areDeletable : List Term → Bool
  | [] => true
  | term :: rest => isDeletable term && areDeletable rest

end

end Term

end TreePass.Source
