import TreePass.Text.Digit

/-!
The words of a command line. A word that begins with a dash is a switch, unless it is a lone dash,
a negative number or a text with a blank in it; after a double dash every word is an operand. The
name of a long switch may be cut short as long as it fits only one.
-/

set_option autoImplicit false
set_option relaxedAutoImplicit false

namespace TreePass.CommandLine

/-- How many arguments a switch takes: none, one, or all operands that follow it. -/
inductive Arity
  | none | one | many
  deriving DecidableEq

structure Switch (α : Type) where
  action : α
  names : List String
  arity : Arity := .none

inductive Ending
  | usage | help | version
  deriving DecidableEq

inductive Attached
  | nothing
  /-- A text behind an equals sign. -/
  | equals (text : String)
  /-- A text directly behind a dash and a letter. -/
  | joined (text : String)
  deriving DecidableEq

inductive Word (α : Type)
  | operand (text : String)
  | divider
  | switch (found : Switch α) (attached : Attached)
  /-- A switch that is not known. -/
  | unknown (text : String)

namespace Word

variable {α : Type}

def named? (switches : List (Switch α)) (name : String) : Option (Switch α) :=
  switches.find? (·.names.contains name)

def splitArgument? (text : String) : Option (String × String) :=
  let chars := text.toList
  match chars.dropWhile (· != '=') with
  | [] => none
  | _ :: argument => some (String.ofList (chars.takeWhile (· != '=')), String.ofList argument)

/-- All switches that a word may stand for when it is cut short or joined with other letters. -/
def candidates (switches : List (Switch α)) (text : String) : List (Switch α × Attached) :=
  let named := switches.flatMap fun s => s.names.map fun name => (s, name)
  if text.startsWith "--" then
    let (stem, attached) : String × Attached :=
      match splitArgument? text with
      | some (stem, argument) => (stem, .equals argument)
      | none => (text, .nothing)
    named.filterMap fun (s, name) => if name.startsWith stem then some (s, attached) else none
  else
    let short := String.ofList (text.toList.take 2)
    named.filterMap fun (s, name) =>
      if name = short then some (s, .joined (String.ofList (text.toList.drop 2)))
      else if name.startsWith text then some (s, .nothing)
      else none

def isNegativeNumber (text : String) : Bool :=
  let isDigit (c : Char) := (Text.Digit.value? c).isSome
  match text.toList with
  | '-' :: rest =>
    let rest := if rest.getLast? == some '\n' then rest.dropLast else rest
    match rest.dropWhile isDigit with
    | [] => !rest.isEmpty
    | '.' :: fraction => !fraction.isEmpty && fraction.all isDigit
    | _ => false
  | _ => false

/-- What a word is; a word that may stand for several switches is an error. -/
def classify (switches : List (Switch α)) (text : String) : Except Ending (Word α) :=
  if !text.startsWith "-" || text = "-" then .ok (.operand text)
  else
    match named? switches text with
    | some s => .ok (.switch s .nothing)
    | none =>
      let split := (splitArgument? text).bind fun (name, argument) =>
        (named? switches name).map fun s => (s, argument)
      match split, candidates switches text with
      | some (s, argument), _ => .ok (.switch s (.equals argument))
      | none, [(s, attached)] => .ok (.switch s attached)
      | none, _ :: _ => .error .usage
      | none, [] =>
        if isNegativeNumber text || text.toList.contains ' ' then .ok (.operand text)
        else .ok (.unknown text)

def ofTexts (switches : List (Switch α)) : List String → Except Ending (List (Word α))
  | [] => .ok []
  | "--" :: rest => .ok (.divider :: rest.map .operand)
  | text :: rest => do
    let first ← classify switches text
    return first :: (← ofTexts switches rest)

/-- The switches of letters behind a dash, and whether letters remain that are none. -/
def letters (switches : List (Switch α)) : List Char → Except Ending (List (Switch α) × Bool)
  | [] => .ok ([], false)
  | c :: rest =>
    if c == '-' || c == '=' then .error .usage
    else
      match named? switches (String.ofList ['-', c]) with
      | some s => do
        let (more, remain) ← letters switches rest
        return (s :: more, remain)
      | none => .ok ([], true)

end Word

end TreePass.CommandLine
