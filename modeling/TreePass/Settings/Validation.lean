import TreePass.Fault
import TreePass.Scoping.Policy
import TreePass.Text.Utf8

/-!
Validation of settings. Values are coerced where their meaning is plain; every field that cannot
be coerced and every unknown field is reported, known fields first.
-/

set_option autoImplicit false
set_option relaxedAutoImplicit false

namespace TreePass

open Number (Binary64)

inductive IssueKind
  | boolParsing | boolType | stringType | tupleType | unknownField | frozen
  deriving DecidableEq

def IssueKind.label : IssueKind → String
  | boolParsing => "bool_parsing"
  | boolType => "bool_type"
  | stringType => "string_type"
  | tupleType => "tuple_type"
  | unknownField => "extra_forbidden"
  | frozen => "frozen_instance"

structure Issue where
  location : List String
  kind : IssueKind
  deriving DecidableEq

/-- All that is wrong with the fields of a record. -/
structure Invalid where
  /-- The name of the record. -/
  record : String
  issues : List Issue
  deriving DecidableEq

def Invalid.headline (invalid : Invalid) : String :=
  let count := invalid.issues.length
  toString count ++ " validation error" ++ (if count = 1 then "" else "s") ++ " for " ++
    invalid.record

namespace Settings

def falseWords : List String := ["0", "off", "f", "false", "n", "no"]

def trueWords : List String := ["1", "on", "t", "true", "y", "yes"]

/-- The truth value of a word in letters of either case. Only ASCII letters have two cases here. -/
def boolOfWord (text : String) : Except IssueKind Bool :=
  let word := text.map Char.toLower
  if falseWords.contains word then .ok false
  else if trueWords.contains word then .ok true
  else .error .boolParsing

def boolOfNumber (i : Int) : Except IssueKind Bool :=
  if i = 0 then .ok false else if i = 1 then .ok true else .error .boolParsing

def fitsWord (i : Int) : Bool := -(Nat.pow 2 63 : Int) ≤ i && i < (Nat.pow 2 63 : Int)

def toBool (value : Value) : Except IssueKind Bool :=
  match value with
  | .bool b => .ok b
  | .str text => boolOfWord text
  | .bytes data =>
    match Text.Utf8.decode data with
    | .ok text => boolOfWord text
    | .error _ => .error .boolParsing
  | .int i =>
    if fitsWord i then boolOfNumber i
    else if ((Binary64.ofInt i).toInt?.map fitsWord).getD false then .error .boolParsing
    else .error .boolType
  | .float x =>
    match x.toInt? with
    | some i => if fitsWord i then boolOfNumber i else .error .boolType
    | none => .error .boolType
  | _ => .error .boolType

def toText (value : Value) : Except IssueKind String :=
  match value with
  | .str text => .ok text
  | .bytes data =>
    match Text.Utf8.decode data with
    | .ok text => .ok text
    | .error _ => .error .stringType
  | _ => .error .stringType

def single {α : Type} (field : String) (coerced : Except IssueKind α) : Except (List Issue) α :=
  match coerced with
  | .ok a => .ok a
  | .error kind => .error [⟨[field], kind⟩]

def textItems (field : String) : Nat → List Value → Except (List Issue) (List String)
  | _, [] => .ok []
  | index, item :: rest =>
    match toText item, textItems field (index + 1) rest with
    | .ok text, .ok texts => .ok (text :: texts)
    | .ok _, .error issues => .error issues
    | .error kind, .ok _ => .error [⟨[field, toString index], kind⟩]
    | .error kind, .error issues => .error (⟨[field, toString index], kind⟩ :: issues)

def toTexts (field : String) (value : Value) : Except (List Issue) (List String) :=
  match value with
  | .list items | .tuple items => textItems field 0 items
  | _ => .error [⟨[field], .tupleType⟩]

def fieldOr {α : Type} (fields : Table) (field : String) (default : α)
    (coerce : Value → Except (List Issue) α) : Except (List Issue) α :=
  match fields.find? field with
  | some value => coerce value
  | none => .ok default

def issuesOf {α : Type} : Except (List Issue) α → List Issue
  | .ok _ => []
  | .error issues => issues

def unknownFields (known : List String) (fields : Table) : List Issue :=
  (fields.filter fun field => !known.contains field.1).map fun field => ⟨[field.1], .unknownField⟩

end Settings

namespace Flags

def recordName : String := "WarningFlags"

def ofFields (fields : Table) : Except Invalid Flags :=
  let coerce (flag : Flag) : Except (List Issue) Bool :=
    Settings.fieldOr fields flag.key true fun value =>
      Settings.single flag.key (Settings.toBool value)
  let callee := coerce .unknownCallee
  let shadow := coerce .localShadow
  let extra := Settings.unknownFields (Flag.all.map Flag.key) fields
  match callee, shadow, extra with
  | .ok c, .ok s, [] => .ok ⟨.bool c, .bool s⟩
  | _, _, _ => .error ⟨recordName, Settings.issuesOf callee ++ Settings.issuesOf shadow ++ extra⟩

end Flags

namespace Policy

def recordName : String := "ScopePolicy"

def keys : List String :=
  ["assignment_forms", "function_form", "loop_forms", "nse_functions",
    "count_replacement_targets"]

def ofFields (fields : Table) : Except Invalid Policy :=
  let standard : Policy := {}
  let texts (field : String) (default : List String) :=
    Settings.fieldOr fields field default (Settings.toTexts field)
  let assignment := texts "assignment_forms" standard.assignmentForms
  let function := Settings.fieldOr fields "function_form" standard.functionForm fun value =>
    Settings.single "function_form" (Settings.toText value)
  let loop := texts "loop_forms" standard.loopForms
  let nse := texts "nse_functions" standard.nseFunctions
  let count :=
    Settings.fieldOr fields "count_replacement_targets" standard.countReplacementTargets
      fun value => Settings.single "count_replacement_targets" (Settings.toBool value)
  let extra := Settings.unknownFields keys fields
  match assignment, function, loop, nse, count, extra with
  | .ok a, .ok f, .ok l, .ok n, .ok c, [] => .ok ⟨a, f, l, n, c⟩
  | _, _, _, _, _, _ =>
    .error ⟨recordName,
      Settings.issuesOf assignment ++ Settings.issuesOf function ++ Settings.issuesOf loop ++
        Settings.issuesOf nse ++ Settings.issuesOf count ++ extra⟩

end Policy

end TreePass
