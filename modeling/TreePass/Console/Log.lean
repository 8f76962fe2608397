import TreePass.Console.Markup

/-!
The log of a console. An entry is printed when its level reaches the threshold; its first line
stands behind the name of the level, and its later lines are indented as far.
-/

set_option autoImplicit false
set_option relaxedAutoImplicit false

namespace TreePass.Console

inductive Level
  | debug | info | success | warning | error
  deriving DecidableEq

namespace Level

def rank : Level → Int
  | debug => 10
  | info => 20
  | success => 25
  | warning => 30
  | error => 40

def label : Level → String
  | debug => "DEBUG"
  | info => "INFO"
  | success => "SUCCESS"
  | warning => "WARNING"
  | error => "ERROR"

def sign : Level → String
  | debug => ""
  | info => "\u2139\ufe0f  "
  | success => "\u2705 "
  | warning => "\u26a0\ufe0f  "
  | error => "\u274c "

end Level

structure Entry where
  level : Level
  message : String

namespace Entry

def margin : Nat := 9

def lines (entry : Entry) : Except Markup.Unmatched (List String) := do
  let text ← Markup.lines (entry.level.sign ++ entry.message)
  let name := entry.level.label
  let pad (n : Nat) : String := String.ofList (List.replicate n ' ')
  let printed :=
    match text with
    | [] => []
    | line :: rest => (name ++ pad (margin - name.length) ++ line) :: rest.map (pad margin ++ ·)
  return printed.map fun line => String.ofList (Text.Blank.trimEnd line.toList)

end Entry

def standardThreshold : Int := Level.warning.rank

inductive Item
  | entry (e : Entry)
  | text (marked : String)
  | threshold (rank : Int)

namespace Item

def print (threshold : Int) : Item → Except Markup.Unmatched (List String × Int)
  | .entry e =>
    if threshold ≤ e.level.rank then do return (← e.lines, threshold) else .ok ([], threshold)
  | .text marked => do return (← Markup.lines marked, threshold)
  | .threshold rank => .ok ([], rank)

end Item

def dropEmptyEnd (lines : List String) : List String :=
  (lines.reverse.dropWhile String.isEmpty).reverse

end TreePass.Console
