import TreePass.Text.Quoted

/-!
Identities: what a call can be aimed at. A target is matched by identity, never by name, so two
objects of one name are different targets.
-/

set_option autoImplicit false
set_option relaxedAutoImplicit false

namespace TreePass

/-- An object that a callee can stand for. -/
inductive Identity
  /-- The absent object. -/
  | none
  /-- A function known by its name. -/
  | named (name : String)
  /-- An object without a name. -/
  | object (label : String)
  /-- An object of the standard environment. -/
  | builtin (name : String)
  /-- The function behind an operator symbol. -/
  | operator (symbol : String)
  /-- A syntactic form without a function of its own. -/
  | form (symbol : String)
  deriving DecidableEq

namespace Identity

def formSymbols : List String :=
  ["\x7b", "=", "<-", "function", "if", "for", "while", "return", "break", "continue", "and", "or",
    "in", "not in", "compare"]

def operatorNames : List (String × String) :=
  [("+", "add"), ("-", "sub"), ("*", "mul"), ("/", "truediv"), ("//", "floordiv"), ("%", "mod"),
    ("**", "pow"), ("@", "matmul"), ("<<", "lshift"), (">>", "rshift"), ("&", "and_"),
    ("|", "or_"), ("^", "xor"), ("u-", "neg"), ("u+", "pos"), ("~", "invert"), ("not", "not_"),
    ("==", "eq"), ("!=", "ne"), ("<", "lt"), ("<=", "le"), (">", "gt"), (">=", "ge"),
    ("is", "is_"), ("is not", "is_not"), ("[", "getitem")]

def builtinFunctions : List String :=
  ["__build_class__", "__import__", "abs", "aiter", "all", "anext", "any", "ascii", "bin",
    "breakpoint", "callable", "chr", "compile", "delattr", "dir", "divmod", "eval", "exec",
    "format", "getattr", "globals", "hasattr", "hash", "hex", "id", "input", "isinstance",
    "issubclass", "iter", "len", "locals", "max", "min", "next", "oct", "open", "ord", "pow",
    "print", "repr", "round", "setattr", "sorted", "sum", "vars"]

def builtinClasses : List String :=
  ["ArithmeticError", "AssertionError", "AttributeError", "BaseException", "BaseExceptionGroup",
    "BlockingIOError", "BrokenPipeError", "BufferError", "BytesWarning", "ChildProcessError",
    "ConnectionAbortedError", "ConnectionError", "ConnectionRefusedError", "ConnectionResetError",
    "DeprecationWarning", "EOFError", "EncodingWarning", "Exception", "ExceptionGroup",
    "FileExistsError", "FileNotFoundError", "FloatingPointError", "FutureWarning",
    "GeneratorExit", "ImportError", "ImportWarning", "IndentationError", "IndexError",
    "InterruptedError", "IsADirectoryError", "KeyError", "KeyboardInterrupt", "LookupError",
    "MemoryError", "ModuleNotFoundError", "NameError", "NotADirectoryError",
    "NotImplementedError", "OSError", "OverflowError", "PendingDeprecationWarning",
    "PermissionError", "ProcessLookupError", "RecursionError", "ReferenceError",
    "ResourceWarning", "RuntimeError", "RuntimeWarning", "StopAsyncIteration", "StopIteration",
    "SyntaxError", "SyntaxWarning", "SystemError", "SystemExit", "TabError", "TimeoutError",
    "TypeError", "UnboundLocalError", "UnicodeDecodeError", "UnicodeEncodeError", "UnicodeError",
    "UnicodeTranslateError", "UnicodeWarning", "UserWarning", "ValueError", "Warning",
    "ZeroDivisionError", "bool", "bytearray", "bytes", "classmethod", "complex", "dict",
    "enumerate", "filter", "float", "frozenset", "int", "list", "map", "memoryview", "object",
    "property", "range", "reversed", "set", "slice", "staticmethod", "str", "super", "tuple",
    "type", "zip"]

/-- Names of the standard environment that are neither functions nor classes. -/
def builtinConstants : List String :=
  ["Ellipsis", "False", "NotImplemented", "True", "__doc__", "__loader__", "__name__",
    "__package__", "__spec__", "copyright", "credits", "exit", "help", "license", "quit"]

/-- Names of the standard environment that are second names of another object. -/
def builtinAliases : List (String × Identity) :=
  [("IOError", builtin "OSError"), ("EnvironmentError", builtin "OSError"),
    ("__debug__", builtin "True"), ("None", none)]

def ofBuiltin (name : String) : Identity :=
  (builtinAliases.lookup name).getD (builtin name)

/-- The object that a syntax symbol stands for. Attribute access is a standard function. -/
def ofSymbol? (symbol : String) : Option Identity :=
  if formSymbols.contains symbol then some (form symbol)
  else if (operatorNames.lookup symbol).isSome then some (operator symbol)
  else if symbol == "." then some (builtin "getattr")
  else Option.none

/-- The name an object goes by; an object without one goes by its description. -/
def name : Identity → String
  | none => "None"
  | named n => n
  | object label => "<obj " ++ label ++ ">"
  | builtin n => if n == "__loader__" then "BuiltinImporter"
    else if n == "__name__" then "'builtins'"
    else if n == "__package__" then "''"
    else if n == "exit" || n == "quit" then "Use " ++ n ++ "() or Ctrl-D (i.e. EOF) to exit"
    else if n == "help" then
      "Type help() for interactive help, or help(object) for help about object."
    else n
  | operator symbol => (operatorNames.lookup symbol).getD symbol
  | form symbol => "<special form " ++ Text.Quoted.quote symbol ++ ">"

def description : Identity → String
  | named n => "<fn " ++ n ++ ">"
  | builtin n =>
    if builtinFunctions.contains n then "<built-in function " ++ n ++ ">"
    else if builtinClasses.contains n then "<class '" ++ n ++ "'>"
    else name (builtin n)
  | operator symbol => "<built-in function " ++ name (operator symbol) ++ ">"
  | identity => identity.name

end Identity

/-- An environment gives names their objects; an earlier entry hides later ones. -/
abbrev Environment := List (String × Identity)

namespace Environment

def find? (env : Environment) (name : String) : Option Identity := env.lookup name

def builtins : Environment :=
  (Identity.builtinFunctions ++ Identity.builtinClasses ++ Identity.builtinConstants ++
    Identity.builtinAliases.map (·.1)).map fun name => (name, Identity.ofBuiltin name)

def syntaxSymbols : Environment :=
  (Identity.formSymbols ++ Identity.operatorNames.map (·.1) ++ ["."]).filterMap fun symbol =>
    (Identity.ofSymbol? symbol).map (symbol, ·)

/-- What every function read from source sees below its own names. -/
def standard : Environment := builtins ++ syntaxSymbols

end Environment

end TreePass
