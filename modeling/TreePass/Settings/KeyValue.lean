import TreePass.Number.Numeral
import TreePass.Value

/-!
Settings given as `key=value` texts. The type of a value is told from its text: a truth value, an
integer, a real number, or else the text itself.
-/

set_option autoImplicit false
set_option relaxedAutoImplicit false

namespace TreePass.Settings

structure MissingEquals where
  item : String
  deriving DecidableEq

def MissingEquals.message (e : MissingEquals) : String :=
  "Invalid config format: '" ++ e.item ++ "'. Expected 'key=value'."

def typedValue (text : String) : Value :=
  let lower := text.map Char.toLower
  if lower = "true" then .bool true
  else if lower = "false" then .bool false
  else if lower.toList.any fun c => c == '.' || c == 'e' then
    ((Number.Numeral.float? text).map .float).getD (.str text)
  else ((Number.Numeral.int? text).map .int).getD (.str text)

/-- Key and value of one item, divided at the first equals sign and trimmed. -/
def keyValue (item : String) : Except MissingEquals (String × Value) :=
  let chars := item.toList
  match chars.dropWhile (· != '=') with
  | [] => .error ⟨item⟩
  | _ :: value =>
    let key := Text.Blank.trimChars (chars.takeWhile (· != '='))
    .ok (String.ofList key, typedValue (String.ofList (Text.Blank.trimChars value)))

/-- All items in order; of a repeated key the last value stays. -/
def keyValues (items : List String) : Except MissingEquals Table :=
  items.foldlM (fun table item => (keyValue item).map fun (key, value) => table.put key value) []

end TreePass.Settings
