import TreePass.Files
import TreePass.Settings.Validation
import TreePass.Toml.Parser

/-!
Settings from a project file. The tables for warnings and scopes stand under `tool.exprflow`; a
file that is no document or cannot be opened counts as an empty one, and values given on the spot
win over the file.
-/

set_option autoImplicit false
set_option relaxedAutoImplicit false

namespace TreePass

/-- Warning flags together with a scope policy. -/
structure Settings where
  flags : Flags := {}
  policy : Policy := {}

namespace Settings

inductive LoadError
  /-- The file is no text. -/
  | undecodable (malformed : Text.Utf8.Malformed)
  /-- An integer in the file is too long to be read. -/
  | longInteger (digits : Nat)
  /-- A value on the way to the tables is no table. -/
  | notTable
  /-- The warnings or the scope are no table. -/
  | notMapping
  | invalid (report : Invalid)

namespace LoadError

/-- The wording of an error; of a report only the first line. -/
def message : LoadError → String
  | undecodable malformed => malformed.message
  | longInteger digits =>
    "Exceeds the limit (" ++ toString Number.Numeral.maxDigits ++
      " digits) for integer string conversion: value has " ++ toString digits ++
      " digits; use sys.set_int_max_str_digits() to increase the limit"
  | notTable => "not a table"
  | notMapping => "not a mapping"
  | invalid report => report.headline

end LoadError

mutual

/-- The dynamic value of an item. Dates and times are objects without a name. -/
def valueOf : Toml.Item → Value
  | .text s => .str s
  | .integer i => .int i
  | .real x => .float x
  | .truth b => .bool b
  | .moment => .identity (.object "moment")
  | .array items => .list (valuesOf items)
  | .table entries => .map (entriesOf entries)

def valuesOf : List Toml.Item → List Value
  | [] => []
  | item :: rest => valueOf item :: valuesOf rest

def entriesOf : List (String × Toml.Item) → List (Option String × Value)
  | [] => []
  | (key, item) :: rest => (some key, valueOf item) :: entriesOf rest

end

/-- The table under a key; a missing one is empty. -/
def tableAt (entries : Toml.Entries) (key : String) : Option Toml.Entries :=
  match entries.lookup key with
  | none => some []
  | some (.table inner) => some inner
  | some _ => none

/-- A table of dynamic values under a key. -/
def fieldsAt (entries : Toml.Entries) (key : String) : Except LoadError Table :=
  match tableAt entries key with
  | some inner => .ok (inner.map fun (name, item) => (name, valueOf item))
  | none => .error .notMapping

def sectionOf (root : Toml.Entries) : Except LoadError Toml.Entries :=
  match tableAt root "tool" with
  | none => .error .notTable
  | some tool =>
    match tableAt tool "exprflow" with
    | none => .error .notTable
    | some own => .ok own

def sectionOfFile (bytes : List UInt8) : Except LoadError Toml.Entries :=
  match Text.Utf8.decode bytes with
  | .error malformed => .error (.undecodable malformed)
  | .ok text =>
    match Toml.parse text with
    | .ok root => sectionOf root
    | .error .malformed => .ok []
    | .error (.longInteger digits) => .error (.longInteger digits)

/-- The settings table that a project file contributes, if there is one. -/
def ownSection : Option Content → Except LoadError Toml.Entries
  | some (.bytes data) => sectionOfFile data
  | some .locked | none => .ok []

def validated {α : Type} : Except Invalid α → Except LoadError α
  | .ok record => .ok record
  | .error report => .error (.invalid report)

/-- Settings from the nearest project file, if there is one, under the given flag values. -/
def load (file : Option Content) (overrides : Table) : Except LoadError Settings := do
  let own ← ownSection file
  let given ← fieldsAt own "warnings"
  let fields := overrides.foldl (fun table (key, value) => table.put key value) given
  let flags ← validated (Flags.ofFields fields)
  let policy ← validated (Policy.ofFields (← fieldsAt own "scope"))
  return { flags := flags, policy := policy }

end Settings

end TreePass
