import TreePass.Text.Blank
import TreePass.Value.Printer

/-!
Expressions on one line. Infix operators are always parenthesised, so no rules of precedence are
needed to read a line.
-/

set_option autoImplicit false
set_option relaxedAutoImplicit false

namespace TreePass

namespace Printer

def infixOperators : List String :=
  ["+", "-", "*", "/", "//", "%", "**", "@", "<<", ">>", "&", "|", "^", "==", "!=", "<", "<=",
    ">", ">=", "in", "not in", "is", "is not", "and", "or"]

def prefixTexts : List (String × String) :=
  [("-", "-"), ("+", "+"), ("u-", "-"), ("u+", "+"), ("~", "~"), ("not", "not ")]

def assignments : List String := ["=", "<-"]

def join (separator : String) (texts : List String) : String := separator.intercalate texts

def trimRight (text : String) : String :=
  String.ofList (text.toList.reverse.dropWhile Text.Blank.isBlank).reverse

def literalDisplay? : Expr → Option String
  | .atomic _ v => some v.display
  | _ => none

/-- A chain of comparisons: operands, at even places, with a literal between every two. -/
def chainTail? : List Expr → List String → Option (List String)
  | [], [] => some []
  | op :: _ :: nodes, _ :: operand :: texts => do
    let symbol ← literalDisplay? op
    let rest ← chainTail? nodes texts
    some ((symbol ++ " " ++ operand) :: rest)
  | _, _ => none

def chain? (args : List Expr) (texts : List String) : Option String :=
  match args, texts with
  | _ :: op :: nodes, first :: more => do
    let rest ← chainTail? (op :: nodes) more
    some ("(" ++ join " " (first :: rest) ++ ")")
  | _, _ => none

def named (name : Option String) (text : String) : String :=
  match name with
  | some n => n ++ " = " ++ text
  | none => text

def formText? (name : String) (args : List Expr) (texts : List String) : Option String :=
  if name = "\x7b" then
    some (if texts.isEmpty then "\x7b \x7d" else "\x7b " ++ join "; " texts ++ " \x7d")
  else
    match name, texts with
    | "function", params :: body =>
      if (args.head?.map Node.isPairlist).getD false then
        some (trimRight ("function(" ++ params ++ ") " ++ join " " body))
      else none
    | "if", [test, yes] => some ("if (" ++ test ++ ") " ++ yes)
    | "if", [test, yes, no] => some ("if (" ++ test ++ ") " ++ yes ++ " else " ++ no)
    | "for", [var, seq, body] => some ("for (" ++ var ++ " in " ++ seq ++ ") " ++ body)
    | "while", [test, body] => some ("while (" ++ test ++ ") " ++ body)
    | _, _ => none

def operatorText? (name : String) (args : List Expr) (texts : List String) : Option String :=
  match texts with
  | [a, b] =>
    if assignments.contains name then some (a ++ " " ++ name ++ " " ++ b)
    else if name = "." && (args[1]?.bind literalDisplay?).isSome then
      (args[1]?.bind literalDisplay?).map fun member => a ++ "." ++ member
    else if name = "[" then some (a ++ "[" ++ b ++ "]")
    else if infixOperators.contains name then some ("(" ++ a ++ " " ++ name ++ " " ++ b ++ ")")
    else none
  | first :: rest =>
    if name = "[" then some (first ++ "[" ++ join ", " rest ++ "]")
    else
      match prefixTexts.lookup name, rest with
      | some sign, [] => some ("(" ++ sign ++ first ++ ")")
      | _, _ => if name = "compare" then chain? args texts else none
  | [] => none

def callText (calleeName : Option String) (calleeText : String) (names : List (Option String))
    (args : List Expr) (texts : List String) : String :=
  let special : Option String := do
    let name ← calleeName
    match formText? name args texts with
    | some text => some text
    | none => if names.all Option.isNone then operatorText? name args texts else none
  match special with
  | some text => text
  | none =>
    calleeName.getD ("(" ++ calleeText ++ ")") ++ "(" ++
      join ", " (List.zipWith named names texts) ++ ")"

end Printer

mutual

def Node.render : Node Value → String
  | .atomic _ v => v.text
  | .symbol _ name => name
  | .primitive _ ref => "<primitive " ++ ref.name ++ ">"
  | .pairlist _ params => Printer.join ", " (renderParams params)
  | .call _ callee args =>
    Printer.callText callee.symbolName? (Node.render callee) (args.map (·.1)) (args.map (·.2))
      (renderArgs args)

def renderParams : List (String × Option (Node Value)) → List String
  | [] => []
  | (name, none) :: rest => name :: renderParams rest
  | (name, some d) :: rest => (name ++ " = " ++ Node.render d) :: renderParams rest

def renderArgs : List (Option String × Node Value) → List String
  | [] => []
  | (_, a) :: rest => Node.render a :: renderArgs rest

end

end TreePass
