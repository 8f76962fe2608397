import TreePass.Text.Blank
import TreePass.Text.Width

/-!
Style marks in console texts. A mark is a bracketed word such as `[bold]`; a mark that begins with
a slash ends a style. Backslashes before a mark turn it into plain text, and the console shows no
styles, so printing a text only takes the marks away.
-/

set_option autoImplicit false
set_option relaxedAutoImplicit false

namespace TreePass.Console.Markup

/-- A closing mark without a style that it could end. -/
structure Unmatched where
  name : String
  deriving DecidableEq

def startsMark (c : Char) : Bool := c.isLower || c == '#' || c == '/' || c == '@'

/-- A mark at the beginning of a text: what stands between its brackets, and the rest. -/
def mark? : List Char → Option (List Char × List Char)
  | '[' :: c :: more =>
    if startsMark c then
      let inner := more.takeWhile fun x => x != '[' && x != ']'
      match more.drop inner.length with
      | ']' :: rest => some (c :: inner, rest)
      | _ => none
    else none
  | _ => none

theorem mark?_length {text inner rest : List Char} (h : mark? text = some (inner, rest)) :
    rest.length < text.length := by
  unfold mark? at h
  split at h
  · rename_i c more
    split at h
    · simp only at h
      split at h
      · rename_i tail hd
        have hl := congrArg List.length hd
        simp only [List.length_drop, List.length_cons] at hl
        simp only [Option.some.injEq, Prod.mk.injEq] at h
        obtain ⟨-, rfl⟩ := h
        simp only [List.length_cons]
        omega
      · simp at h
    · simp at h
  · simp at h

/-- A part of a marked text: plain characters, or a mark behind some backslashes. -/
inductive Part
  | plain (text : List Char)
  | mark (slashes : Nat) (inner : List Char)

def consPlain (text : List Char) : List Part → List Part
  | .plain more :: rest => .plain (text ++ more) :: rest
  | parts => .plain text :: parts

/-- Divides a text into plain runs and marks. The backslashes directly before a mark belong to
it. -/
def parts (text : List Char) : List Part :=
  let slashes := text.takeWhile (· == '\\')
  let after := text.drop slashes.length
  match h : mark? after with
  | some (inner, rest) =>
    have : rest.length < text.length := by
      have := mark?_length h
      simp only [after, List.length_drop] at this
      omega
    .mark slashes.length inner :: parts rest
  | none =>
    match hc : after with
    | [] => if slashes.isEmpty then [] else [.plain slashes]
    | c :: rest =>
      have : rest.length < text.length := by
        have := congrArg List.length hc
        simp only [after, List.length_drop, List.length_cons] at this
        omega
      consPlain (slashes ++ [c]) (parts rest)
termination_by text.length

/-- Doubles the backslashes before every mark and adds one, so that it prints as it is. -/
def escapePart : Part → List Char
  | .plain text => text
  | .mark slashes inner => List.replicate (2 * slashes + 1) '\\' ++ '[' :: inner ++ [']']

/-- A last backslash that stands alone is doubled, so that it cannot escape a mark after it. -/
def guardEnd (text : List Char) : List Char :=
  match text.reverse with
  | ['\\'] => text ++ ['\\']
  | '\\' :: c :: _ => if c == '\\' then text else text ++ ['\\']
  | _ => text

def escape (text : String) : String :=
  String.ofList (guardEnd ((parts text.toList).flatMap escapePart))

/-- In plain text, a backslash before a bracket is left out. -/
def unescapeBrackets : List Char → List Char
  | '\\' :: '[' :: rest => '[' :: unescapeBrackets rest
  | c :: rest => c :: unescapeBrackets rest
  | [] => []

def synonyms : List (String × String) :=
  [("b", "bold"), ("d", "dim"), ("i", "italic"), ("u", "underline"), ("r", "reverse"),
    ("s", "strike"), ("o", "overline"), ("c", "conceal"), ("uu", "underline2")]

def styleName (text : List Char) : String :=
  let name := String.ofList ((Text.Blank.trimChars text).map Char.toLower)
  (synonyms.lookup name).getD name

def close (name : String) : List String → Option (List String)
  | [] => none
  | style :: rest => if style = name then some rest else (close name rest).map (style :: ·)

/-- The styles that are open after a mark, the latest first. -/
def follow (styles : List String) (inner : List Char) : Except Unmatched (List String) :=
  match inner.takeWhile (· != '=') with
  | '/' :: name =>
    if (Text.Blank.trimChars name).isEmpty then
      match styles with
      | _ :: rest => .ok rest
      | [] => .error ⟨""⟩
    else
      match close (styleName name) styles with
      | some rest => .ok rest
      | none => .error ⟨styleName name⟩
  | name => .ok (styleName name :: styles)

def printParts (styles : List String) : List Part → Except Unmatched (List Char)
  | [] => .ok []
  | .plain text :: rest => do return unescapeBrackets text ++ (← printParts styles rest)
  | .mark slashes inner :: rest => do
    let before := List.replicate (slashes / 2) '\\'
    if slashes % 2 = 1 then
      return before ++ '[' :: inner ++ ']' :: (← printParts styles rest)
    else
      let styles ← follow styles inner
      return before ++ (← printParts styles rest)

def isSilent (c : Char) : Bool := [7, 8, 11, 12, 13].contains c.toNat

/-- The columns up to the next tab stop are filled with blanks. -/
def expandTabs (column : Nat) : List Char → List Char
  | [] => []
  | '\t' :: rest =>
    let width := 8 - column % 8
    List.replicate width ' ' ++ expandTabs (column + width) rest
  | c :: rest => c :: expandTabs (column + Text.Width.columns c) rest

def splitLines : List Char → List (List Char)
  | [] => [[]]
  | c :: rest =>
    match splitLines rest with
    | [] => [[c]]
    | line :: lines => if c == '\n' then [] :: line :: lines else (c :: line) :: lines

/-- The printed lines of a marked text, without blanks at their ends. -/
def lines (text : String) : Except Unmatched (List String) := do
  let printed ← printParts [] (parts text.toList)
  return (splitLines (printed.filter (!isSilent ·))).map fun line =>
    String.ofList (Text.Blank.trimEnd (expandTabs 0 line))

end TreePass.Console.Markup
