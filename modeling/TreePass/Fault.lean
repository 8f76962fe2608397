import TreePass.Handler.Slot
import TreePass.Value.Printer

/-!
Why an operation on expressions, configurations or traversals stops.
-/

set_option autoImplicit false
set_option relaxedAutoImplicit false

namespace TreePass

inductive Flag
  | unknownCallee | localShadow
  deriving DecidableEq

namespace Flag

def key : Flag → String
  | unknownCallee => "warn_unknown_callee"
  | localShadow => "warn_possible_local_shadow"

def all : List Flag := [unknownCallee, localShadow]

def ofKey? (text : String) : Option Flag := all.find? fun flag => flag.key == text

end Flag

/-- A cause that ends an operation. -/
inductive Fault
  /-- A text that names no slot. -/
  | unknownSlot (text : String)
  /-- A slot that holds no handlers for single targets. -/
  | noTargets (slot : Slot)
  /-- A configuration of the other mode. -/
  | modeMismatch (given expected : Mode)
  /-- A handler result of the wrong shape. -/
  | handlerResult (slot : Slot) (kind : Kind) (mode : Mode) (typeName : String)
  /-- Children for a leaf. -/
  | leafChildren (kind : Kind)
  /-- Another number of defaults than a parameter list has. -/
  | defaultCount (expected given : Nat)
  /-- Another number of children than a call has. -/
  | childCount (expected given : Nat)
  /-- Another number of names than of arguments. -/
  | nameCount (args names : Nat)
  /-- A value that is no member of an enumeration. -/
  | notAMember (text enumeration : String)
  /-- A text that names no warning flag. -/
  | unknownFlag (text : String)
  /-- A skip outside topdown handlers. -/
  | skipUnavailable
  /-- A skip on its way to the visit it belongs to. -/
  | skip (visit : Nat) (value : Value)
  /-- A failure that a handler or the file system reports. -/
  | raised (text : String)
  /-- A value without the part that was asked for. -/
  | missingMember
  /-- A value that an operation does not take. -/
  | wrongOperand
  /-- An index beyond the end of a list. -/
  | outOfRange
  /-- A key that is not in a table. -/
  | missingKey
  /-- A value that is no expression to print. -/
  | cannotRender (typeName : String)

namespace Fault

def message : Fault → String
  | unknownSlot text =>
    "Unknown handler slot: '" ++ text ++ "'. Known slots: " ++
      Text.Quoted.nameList (Slot.all.map Slot.label)
  | noTargets slot =>
    "Target-specific handlers exist only for call and topdown slots, not '" ++ slot.label ++ "'"
  | modeMismatch given expected =>
    "A " ++ given.label ++ " configuration cannot drive a " ++ expected.label ++
      " traversal; start from default_" ++ expected.label ++ "_config()."
  | handlerResult slot kind mode typeName =>
    "The '" ++ slot.label ++ "' handler returned " ++ typeName ++ " for a " ++ kind.label ++
      " node; " ++ mode.label ++ " traversals require " ++
      (match mode with
        | .transform => "an expression node."
        | .analyse => "a mapping of name -> list.")
  | leafChildren kind => kind.label ++ " nodes have no children"
  | defaultCount expected given =>
    "pairlist expects " ++ toString expected ++ " default expressions, got " ++ toString given
  | childCount expected given =>
    "call expects " ++ toString expected ++ " children, got " ++ toString given
  | nameCount args names =>
    "call has " ++ toString args ++ " arguments but " ++ toString names ++ " argument names"
  | notAMember text enumeration => text ++ " is not a valid " ++ enumeration
  | unknownFlag text =>
    "Unknown warning flag: '" ++ text ++ "'. Known flags: " ++
      Text.Quoted.nameList (NameSet.ofNames (Flag.all.map Flag.key))
  | skipUnavailable => "skip() is only available inside topdown handlers"
  | skip _ _ => "skip"
  | raised text => text
  | missingMember => "missing member"
  | wrongOperand => "wrong operand"
  | outOfRange => "index out of range"
  | missingKey => "missing key"
  | cannotRender typeName => "Cannot deparse " ++ typeName

end Fault

/-- Warning flags. A flag is on when its stored value counts as true. -/
structure Flags where
  unknownCallee : Value := .bool true
  localShadow : Value := .bool true

namespace Flags

def stored (flags : Flags) : Flag → Value
  | .unknownCallee => flags.unknownCallee
  | .localShadow => flags.localShadow

def store (flags : Flags) (flag : Flag) (value : Value) : Flags :=
  match flag with
  | .unknownCallee => { flags with unknownCallee := value }
  | .localShadow => { flags with localShadow := value }

def isOn (flags : Flags) (flag : Flag) : Bool := (flags.stored flag).isTrue

def flag (key : String) : Except Fault Flag :=
  match Flag.ofKey? key with
  | some flag => .ok flag
  | none => .error (.unknownFlag key)

def enabled (flags : Flags) (key : String) : Except Fault Bool :=
  (flag key).map flags.isOn

/-- A copy with one flag replaced; the value is taken as it is. -/
def withFlag (flags : Flags) (key : String) (value : Value) : Except Fault Flags :=
  (flag key).map fun f => flags.store f value

end Flags

end TreePass
