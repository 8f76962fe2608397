/-!
Tokens of source texts. Layout is explicit: the end of a line and the change of indentation are
tokens of their own.
-/

set_option autoImplicit false
set_option relaxedAutoImplicit false

namespace TreePass.Source

/-- A token. Literals are kept as written; a formatted string keeps the tokens of the expressions
in its replacement fields. -/
inductive Token
  | word (text : String)
  | number (text : String)
  | string (text : String)
  | formatted (fields : List (List Token))
  | mark (text : String)
  | newline
  | indent
  | dedent

namespace Token

def keywords : List String :=
  ["False", "None", "True", "and", "as", "assert", "async", "await", "break", "class", "continue",
    "def", "del", "elif", "else", "except", "finally", "for", "from", "global", "if", "import",
    "in", "is", "lambda", "nonlocal", "not", "or", "pass", "raise", "return", "try", "while",
    "with", "yield"]

def isBytes (text : String) : Bool :=
  (text.toList.takeWhile Char.isAlpha).any fun c => c == 'b' || c == 'B'

/-- The type of text a literal token stands for: bytes or characters. -/
def bytes? : Token → Option Bool
  | string text => some (isBytes text)
  | formatted _ => some false
  | _ => none

/-- Adjacent literals are one literal, so they must not mix bytes and characters. -/
def mixes : List Token → Bool
  | first :: second :: rest =>
    (match first.bytes?, second.bytes? with
      | some a, some b => a != b
      | _, _ => false) || mixes (second :: rest)
  | _ => false

mutual

def mixesInside : Token → Bool
  | formatted fields => fieldsMix fields
  | _ => false

def fieldsMix : List (List Token) → Bool
  | [] => false
  | field :: rest => mixes field || anyInside field || fieldsMix rest

/-- Whether some token holds a mixture in one of its fields. -/
def anyInside : List Token → Bool
  | [] => false
  | token :: rest => mixesInside token || anyInside rest

end

def mixesAnywhere (tokens : List Token) : Bool := mixes tokens || anyInside tokens

mutual

/-- The number of tokens, those in replacement fields included. -/
def weight : Token → Nat
  | formatted fields => fieldsWeight fields + 1
  | _ => 1

def fieldsWeight : List (List Token) → Nat
  | [] => 0
  | field :: rest => weights field + fieldsWeight rest

def weights : List Token → Nat
  | [] => 0
  | token :: rest => weight token + weights rest

end

end Token

end TreePass.Source
