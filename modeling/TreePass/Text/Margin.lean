/-!
The common margin of a text: the longest blank start shared by all lines that hold anything.
-/

set_option autoImplicit false
set_option relaxedAutoImplicit false

namespace TreePass.Text.Margin

/-- Lines of a text, divided at line feeds only. -/
def lines : List Char → List (List Char)
  | [] => [[]]
  | '\n' :: rest => [] :: lines rest
  | c :: rest =>
    match lines rest with
    | [] => [[c]]
    | line :: more => (c :: line) :: more

def isMargin (c : Char) : Bool := c == ' ' || c == '\t'

def commonStart : List Char → List Char → List Char
  | a :: as, b :: bs => if a == b then a :: commonStart as bs else []
  | _, _ => []

def margin (all : List (List Char)) : List Char :=
  match (all.filter fun line => !line.all isMargin).map (·.takeWhile isMargin) with
  | [] => []
  | first :: rest => rest.foldl commonStart first

/-- Empties blank lines and removes the common margin from all others. -/
def removeMargin (text : List Char) : List Char :=
  let all := lines text
  let width := (margin all).length
  ['\n'].intercalate
    (all.map fun line => if line.all isMargin then [] else line.drop width)

end TreePass.Text.Margin
