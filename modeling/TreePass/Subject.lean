import TreePass.Source.FreeNames
import TreePass.Source.Function
import TreePass.Value.Printer

/-!
Subjects: what a caller may hand in for a function. A live function is read from its source text
and sees the variables it closes over, its globals and the standard environment.
-/

set_option autoImplicit false
set_option relaxedAutoImplicit false

namespace TreePass

/-- A function at run time: its source, the name it is bound to, and the variables around it. A
function inside another one has enclosing variables. -/
structure LiveFunction where
  source : String
  name : String
  globals : Environment := []
  enclosing : Environment := []

inductive Subject
  | live (fn : LiveFunction)
  | value (v : Value)

inductive SubjectError
  /-- There is no source text behind it. -/
  | noSource (description typeName : String)
  /-- It cannot be called. -/
  | notCallable (typeName : String)
  | read (e : Source.ReadError)

def SubjectError.message : SubjectError → String
  | noSource description typeName =>
    "Cannot read the source of " ++ description ++
      ": module, class, method, function, traceback, frame, or code object was expected, got " ++
      typeName
  | notCallable typeName => "Expected a Function or a Python function, got " ++ typeName
  | read e => e.message

namespace LiveFunction

def anonymous : String := "<lambda>"

/-- The variables of an enclosing function that a definition closes over. The definition itself is
one of them. -/
def closedOver (fn : LiveFunction) (definition : Source.Definition) : Environment :=
  let free := Source.FreeNames.ofDefinition definition
  ((fn.name, .named fn.name) :: fn.enclosing).filter fun (name, _) => free.contains name

/-- The names a definition sees: what it closes over, its globals and the standard environment.
Without an enclosing function the definition is a global itself. -/
def environment (fn : LiveFunction) (definition : Source.Definition) : Environment :=
  if fn.enclosing.isEmpty then
    (fn.name, .named fn.name) :: fn.globals ++ Environment.standard
  else fn.closedOver definition ++ fn.globals ++ Environment.standard

def read (characters : Source.CharacterNames) (fn : LiveFunction) :
    Except Source.ReadError Function := do
  let statements ← Source.parse fn.source
  match (Source.definitions statements).find? (·.name == fn.name) with
  | some definition => Function.ofDefinition characters definition (fn.environment definition)
  | none => throw (.noFunction (some anonymous))

end LiveFunction

namespace Subject

def typeName : Value → String
  | .identity (.builtin name) =>
    if Identity.builtinFunctions.contains name then "builtin_function_or_method"
    else (Value.identity (.builtin name)).typeName
  | v => v.typeName

def isCallable : Value → Bool
  | .identity (.builtin name) =>
    Identity.builtinFunctions.contains name || Identity.builtinClasses.contains name
  | .identity (.operator _) => true
  | _ => false

variable (characters : Source.CharacterNames)

def read : Subject → Except SubjectError Function
  | live fn =>
    match fn.read characters with
    | .ok function => .ok function
    | .error e => .error (.read e)
  | value v => .error (.noSource v.text (typeName v))

def toFunction : Subject → Except SubjectError Function
  | live fn => read characters (live fn)
  | value v =>
    if isCallable v then read characters (value v) else .error (.notCallable (typeName v))

end Subject

end TreePass
