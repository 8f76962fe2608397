import TreePass.Draft
import TreePass.Handler.Config

/-!
Handler scripts: handlers written as small expressions.
-/

set_option autoImplicit false
set_option relaxedAutoImplicit false

namespace TreePass

/-- Operations whose arguments are evaluated before they run. -/
inductive Operation
  | last | list | node | next | skip | raise | topdown | bottomup | mode | canSkip | hasNext
  | scope | bound | param | flag | inEnv | kind | name | value | callee | args | children | render
  | isCallTo | metadata | setMetadata | withChildren | withArgs | clone | makeCall | symbol | atom
  | merge | collect | shared | standard | get | item | length | add | equal | negate | log
  | saveSkip | callSkip
  deriving DecidableEq

def Operation.words : List (String × Operation) :=
  [("do", last), ("list", list), ("node", node), ("next", next), ("skip", skip),
    ("raise", raise), ("topdown", topdown), ("bottomup", bottomup), ("mode", mode),
    ("can_skip", canSkip), ("has_next", hasNext), ("scope", scope), ("bound", bound),
    ("param", param), ("flag", flag), ("in_env", inEnv), ("kind", kind), ("name", name),
    ("value", value), ("callee", callee), ("args", args), ("children", children),
    ("deparse", render), ("is_call_to", isCallTo), ("meta", metadata),
    ("set_meta", setMetadata), ("with_children", withChildren), ("with_args", withArgs),
    ("clone", clone), ("mkcall", makeCall), ("sym", symbol), ("atom", atom), ("merge", merge),
    ("collect", collect), ("shared", shared), ("default", standard), ("get", get), ("at", item),
    ("len", length), ("add", add), ("eq", equal), ("not", negate), ("log", log),
    ("save_skip", saveSkip), ("call_skip", callSkip)]

inductive Script
  /-- A value made anew at each evaluation. -/
  | constant (draft : Draft)
  /-- The second script if the first gives exactly true, else the third. -/
  | choose (test yes no : Script)
  /-- A map of evaluated keys and values. -/
  | map (entries : List (Script × Script))
  /-- An operation on evaluated arguments. -/
  | apply (operation : Operation) (arguments : List Script)

instance : Inhabited Script := ⟨.constant default⟩

end TreePass
