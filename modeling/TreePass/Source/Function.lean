import TreePass.Function
import TreePass.Node.Build
import TreePass.Source.Reading

/-!
Functions of source texts. A function that has been read is a plain description; planting it gives
each of its nodes a tag of its own.
-/

set_option autoImplicit false
set_option relaxedAutoImplicit false

namespace TreePass

namespace Function

variable (characters : Source.CharacterNames)

def ofDefinition (definition : Source.Definition) (env : Environment) :
    Except Source.ReadError Function := do
  let (params, body) ← Source.Reading.definition characters definition
  return { params := params, body := body, env := some env, name := some definition.name }

/-- Reads the first function of a source text, or the first of the given name. It sees the given
names above the standard environment. -/
def read (source : String) (name : Option String) (names : Environment) :
    Except Source.ReadError Function := do
  ofDefinition characters (← Source.findDefinition source name) (names ++ Environment.standard)

/-- A copy of a function whose nodes are new and have no metadata. -/
def plant {σ : Type} (fn : Function) : Action σ Function := do
  let params ← fn.params.plant
  let body ← fn.body.plant
  return { fn with params := params, body := body }

end Function

end TreePass
