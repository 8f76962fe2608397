import TreePass.Source.Token
import TreePass.Text.Identifier

/-!
From characters to tokens. A source text is divided into logical lines; indentation is measured
once with wide and once with narrow tabs, and both measures have to agree about every change.
-/

set_option autoImplicit false
set_option relaxedAutoImplicit false

namespace TreePass.Source.Lexer

open TreePass.Text

def isNewline (c : Char) : Bool := c == '\n' || c == '\r'

def dropNewline : List Char → List Char
  | '\r' :: '\n' :: rest => rest
  | '\r' :: rest => rest
  | '\n' :: rest => rest
  | text => text

def dropComment (text : List Char) : List Char := text.dropWhile fun c => !isNewline c

def marks : List (List String) :=
  [["**=", "//=", ">>=", "<<=", "..."],
    ["**", "//", ">>", "<<", "<=", ">=", "==", "!=", "->", "+=", "-=", "*=", "/=", "%=", "&=",
      "|=", "^=", "@=", ":="],
    ["+", "-", "*", "/", "%", "@", "&", "|", "^", "~", "<", ">", "(", ")", "[", "]", "\x7b",
      "\x7d", ",", ":", ".", ";", "="]]

def scanMark (text : List Char) : Option (Token × List Char) :=
  let found := (marks.flatten.find? fun mark => mark.toList.isPrefixOf text)
  found.map fun mark => (.mark mark, text.drop mark.length)

/-- Digits of a base, with single low lines between them; the first must be a digit. -/
def digitRun (isDigit : Char → Bool) : List Char → Option (List Char × List Char)
  | c :: rest =>
    if isDigit c then
      match rest with
      | '_' :: d :: more =>
        if isDigit d then
          (digitRun isDigit (d :: more)).map fun (run, left) => (c :: '_' :: run, left)
        else none
      | ['_'] => none
      | d :: more =>
        if isDigit d then (digitRun isDigit (d :: more)).map fun (run, left) => (c :: run, left)
        else some ([c], rest)
      | [] => some ([c], [])
    else none
  | [] => none

def isHexDigit (c : Char) : Bool :=
  c.isDigit || ('a' ≤ c && c ≤ 'f') || ('A' ≤ c && c ≤ 'F')

/-- A number in another base: its digits follow the letter, perhaps after a low line. -/
def scanBased (isDigit : Char → Bool) (letter : Char) (text : List Char) :
    Option (List Char × List Char) :=
  let (low, digits) :=
    match text with
    | '_' :: rest => (['_'], rest)
    | _ => ([], text)
  match digitRun isDigit digits with
  | some (run, rest) =>
    if (rest.head?.map fun c => c.isDigit || c == '_').getD false then none
    else some ('0' :: letter :: low ++ run, rest)
  | none => none

/-- An optional run of decimal digits; a low line that no digit follows is refused. -/
def optionalRun (text : List Char) : Option (List Char × List Char) :=
  match text with
  | c :: _ => if c.isDigit then digitRun Char.isDigit text else some ([], text)
  | [] => some ([], [])

/-- An optional exponent. A mark without digits belongs to what follows the number. -/
def scanExponent (text : List Char) : Option (List Char × List Char) :=
  match text with
  | e :: rest =>
    if e == 'e' || e == 'E' then
      match rest with
      | s :: more =>
        if s == '+' || s == '-' then
          (digitRun Char.isDigit more).map fun (run, left) => (e :: s :: run, left)
        else if s.isDigit then (digitRun Char.isDigit rest).map fun (run, left) => (e :: run, left)
        else some ([], text)
      | [] => some ([], text)
    else some ([], text)
  | [] => some ([], [])

def scanImaginary (text : List Char) : List Char × List Char :=
  match text with
  | c :: rest => if c == 'j' || c == 'J' then ([c], rest) else ([], text)
  | [] => ([], [])

def scanFraction (text : List Char) : Option (List Char × List Char) :=
  match text with
  | '.' :: rest => (optionalRun rest).map fun (run, left) => ('.' :: run, left)
  | _ => some ([], text)

/-- A decimal number. A whole number other than zero does not begin with zero. -/
def scanDecimal (text : List Char) : Option (List Char × List Char) := do
  let (whole, afterWhole) ← optionalRun text
  let (fraction, afterFraction) ← scanFraction afterWhole
  let (exponent, afterExponent) ← scanExponent afterFraction
  let (mark, rest) := scanImaginary afterExponent
  let isWhole := fraction.isEmpty && exponent.isEmpty && mark.isEmpty
  if isWhole && whole.head? == some '0' && whole.any (fun c => c.isDigit && c != '0') then none
  else some (whole ++ fraction ++ exponent ++ mark, rest)

def scanNumber (text : List Char) : Option (Token × List Char) :=
  let found :=
    match text with
    | '0' :: x :: rest =>
      if x == 'x' || x == 'X' then scanBased isHexDigit x rest
      else if x == 'o' || x == 'O' then scanBased (fun c => '0' ≤ c && c ≤ '7') x rest
      else if x == 'b' || x == 'B' then scanBased (fun c => c == '0' || c == '1') x rest
      else scanDecimal text
    | _ => scanDecimal text
  found.map fun (chars, rest) => (.number (String.ofList chars), rest)

/-- The rest of a string in single quotes, with its end; it does not cross a line unless the end
of the line is escaped. -/
def scanShort (quote : Char) : List Char → Option (List Char × List Char)
  | [] => none
  | '\\' :: '\r' :: '\n' :: rest =>
    (scanShort quote rest).map fun (body, left) => ('\\' :: '\r' :: '\n' :: body, left)
  | '\\' :: c :: rest => (scanShort quote rest).map fun (body, left) => ('\\' :: c :: body, left)
  | c :: rest =>
    if c == quote then some ([c], rest)
    else if isNewline c then none
    else (scanShort quote rest).map fun (body, left) => (c :: body, left)

def scanLong (quote : Char) : List Char → Option (List Char × List Char)
  | [] => none
  | '\\' :: c :: rest => (scanLong quote rest).map fun (body, left) => ('\\' :: c :: body, left)
  | c :: rest =>
    if c == quote && [quote, quote].isPrefixOf rest then some ([c, c, c], rest.drop 2)
    else (scanLong quote rest).map fun (body, left) => (c :: body, left)

def scanString (letters : List Char) (text : List Char) : Option (Token × List Char) :=
  match text with
  | quote :: rest =>
    let found :=
      if [quote, quote].isPrefixOf rest then
        (scanLong quote (rest.drop 2)).map fun (body, left) =>
          (quote :: quote :: quote :: body, left)
      else (scanShort quote rest).map fun (body, left) => (quote :: body, left)
    found.map fun (chars, left) => (.string (String.ofList (letters ++ chars)), left)
  | [] => none

structure Fence where
  quote : Char
  long : Bool
  raw : Bool

def Fence.closes (fence : Fence) (text : List Char) : Bool :=
  if fence.long then [fence.quote, fence.quote, fence.quote].isPrefixOf text
  else [fence.quote].isPrefixOf text

def Fence.width (fence : Fence) : Nat := if fence.long then 3 else 1

/-- The expression of a replacement field up to what follows it. Brackets and strings inside are
passed over; the closing quotes of the formatted string cannot stand in it. -/
def fieldExpression (fence : Fence) : Nat → Nat → List Char → Option (List Char × List Char)
  | 0, _, _ => none
  | _ + 1, _, [] => none
  | fuel + 1, depth, c :: rest =>
    let keep (chars left : List Char) (depth : Nat) :=
      (fieldExpression fence fuel depth left).map fun (body, after) => (chars ++ body, after)
    if fence.closes (c :: rest) then none
    else if isNewline c && !fence.long then none
    else if c == '\\' then none
    else if c == '#' then none
    else if c == '\'' || c == '"' then
      match if [c, c].isPrefixOf rest then
          (scanLong c (rest.drop 2)).map fun (body, left) => (c :: c :: c :: body, left)
        else (scanShort c rest).map fun (body, left) => (c :: body, left) with
      | some (chars, left) => keep chars left depth
      | none => none
    else if c == '(' || c == '[' || c == '\x7b' then keep [c] rest (depth + 1)
    else if c == ')' || c == ']' then
      if depth == 0 then none else keep [c] rest (depth - 1)
    else if c == '\x7d' then
      if depth == 0 then some ([], c :: rest) else keep [c] rest (depth - 1)
    else if c == '!' then
      if rest.head? == some '=' then keep ['!', '='] (rest.drop 1) depth
      else if depth == 0 then some ([], c :: rest)
      else none
    else if c == ':' then
      if depth == 0 then some ([], c :: rest) else keep [c] rest depth
    else keep [c] rest depth

def dropConversion (text : List Char) : Option (List Char) :=
  match text with
  | '!' :: c :: rest => if c == 'r' || c == 's' || c == 'a' then some rest else none
  | '!' :: [] => none
  | _ => some text

def fieldTexts (fence : Fence) : Nat → Bool → List Char → Option (List (List Char) × List Char)
  | 0, _, _ => none
  | _ + 1, _, [] => none
  | fuel + 1, inFormat, c :: rest =>
    if fence.closes (c :: rest) then
      if inFormat then none else some ([], (c :: rest).drop fence.width)
    else if isNewline c && !fence.long then none
    else if c == '\x7b' then
      if rest.head? == some '\x7b' && !inFormat then fieldTexts fence fuel inFormat (rest.drop 1)
      else do
        let (expression, afterExpression) ← fieldExpression fence (rest.length + 1) 0 rest
        let afterConversion ← dropConversion afterExpression
        match afterConversion with
        | '\x7d' :: left =>
          let (more, after) ← fieldTexts fence fuel inFormat left
          some (expression :: more, after)
        | ':' :: format =>
          let (inner, left) ← fieldTexts fence fuel true format
          let (more, after) ← fieldTexts fence fuel inFormat left
          some (expression :: inner ++ more, after)
        | _ => none
    else if c == '\x7d' then
      if inFormat then some ([], rest)
      else if rest.head? == some '\x7d' then fieldTexts fence fuel inFormat (rest.drop 1)
      else none
    else if c == '\\' && !fence.raw then
      match rest with
      | 'N' :: '\x7b' :: name =>
        fieldTexts fence fuel inFormat (name.dropWhile fun d => d != '\x7d').tail
      | '\x7b' :: _ => fieldTexts fence fuel inFormat rest
      | _ :: left => fieldTexts fence fuel inFormat left
      | [] => none
    else fieldTexts fence fuel inFormat rest

def scanFormatted (lexField : List Char → Option (List Token)) (raw : Bool) (text : List Char) :
    Option (Token × List Char) :=
  match text with
  | quote :: rest => do
    let long := [quote, quote].isPrefixOf rest
    let body := if long then rest.drop 2 else rest
    let (texts, left) ← fieldTexts ⟨quote, long, raw⟩ (body.length + 1) false body
    let fields ← texts.mapM lexField
    some (.formatted fields, left)
  | [] => none

def stringLetters : List String := ["", "r", "u", "b", "br", "rb"]

def formattedLetters : List String := ["f", "fr", "rf"]

/-- Whether a character may stand in a word; above ASCII that is decided for the whole word. -/
def mayContinue (c : Char) : Bool := c.isAlphanum || c == '_' || c.toNat ≥ 0x80

def scanWord (lexField : List Char → Option (List Token)) (text : List Char) :
    Option (Token × List Char) :=
  let word := text.takeWhile mayContinue
  let rest := text.dropWhile mayContinue
  let lower := String.ofList (word.map Char.toLower)
  let quoted := rest.head? == some '\'' || rest.head? == some '"'
  if quoted && stringLetters.contains lower then scanString word rest
  else if quoted && formattedLetters.contains lower then
    scanFormatted lexField (lower.toList.contains 'r') rest
  else if Identifier.isIdentifier word then some (.word (String.ofList word), rest)
  else none

def scan (lexField : List Char → Option (List Token)) (text : List Char) :
    Option (Token × List Char) :=
  match text with
  | [] => none
  | c :: rest =>
    if c.isDigit then scanNumber text
    else if c == '.' && (rest.head?.map Char.isDigit).getD false then scanNumber text
    else if c == '\'' || c == '"' then scanString [] text
    else if mayContinue c then scanWord lexField text
    else scanMark text

def isSpace (c : Char) : Bool := c == ' ' || c == '\t' || c == '\x0c'

/-- Tokens of a text in which line ends do not count. -/
def flat (lexField : List Char → Option (List Token)) : Nat → List Char → Option (List Token)
  | 0, _ => none
  | _ + 1, [] => some []
  | fuel + 1, c :: rest =>
    if isSpace c || isNewline c then flat lexField fuel rest
    else do
      let (token, left) ← scan lexField (c :: rest)
      let more ← flat lexField fuel left
      some (token :: more)

/-- Tokens of a replacement field in which formatted strings nest at most to the given depth. -/
def fieldTokens : Nat → List Char → Option (List Token)
  | 0 => fun _ => none
  | depth + 1 => fun text => flat (fieldTokens depth) (text.length + 1) text

/-- The width of an indentation, with tabs to the next multiple of eight and with narrow tabs. -/
structure Column where
  wide : Nat
  narrow : Nat
  deriving DecidableEq

def indentation : Column → List Char → Column × List Char
  | column, ' ' :: rest => indentation ⟨column.wide + 1, column.narrow + 1⟩ rest
  | column, '\t' :: rest => indentation ⟨(column.wide / 8 + 1) * 8, column.narrow + 1⟩ rest
  | _, '\x0c' :: rest => indentation ⟨0, 0⟩ rest
  | column, text => (column, text)

/-- Closes the blocks that are wider than a column, which has to be one of those still open. -/
def closeBlocks (column : Column) : List Column → Option (Nat × List Column)
  | [] => none
  | top :: below =>
    if top.wide = column.wide then
      if top.narrow = column.narrow then some (0, top :: below) else none
    else if column.wide < top.wide then
      (closeBlocks column below).map fun (count, open_) => (count + 1, open_)
    else none

def layout (column : Column) (blocks : List Column) : Option (List Token × List Column) :=
  match blocks with
  | top :: _ =>
    if top.wide < column.wide then
      if top.narrow < column.narrow then some ([.indent], column :: blocks) else none
    else (closeBlocks column blocks).map fun (count, left) => (List.replicate count .dedent, left)
  | [] => none

/-- The state between tokens: open blocks, open brackets, whether a line begins here and whether
the current line has tokens. -/
structure Place where
  blocks : List Column
  brackets : Nat
  lineStart : Bool
  inLine : Bool

def bracketChange (token : Token) (brackets : Nat) : Option Nat :=
  match token with
  | .mark text =>
    if text = "(" || text = "[" || text = "\x7b" then some (brackets + 1)
    else if text = ")" || text = "]" || text = "\x7d" then
      if brackets = 0 then none else some (brackets - 1)
    else some brackets
  | _ => some brackets

/-- The tokens at the end of the text: the line ends and all blocks close. -/
def finish (place : Place) (done : List Token) : Option (List Token) :=
  if place.brackets > 0 then none
  else
    let line := if place.inLine then [Token.newline] else []
    some (done.reverse ++ line ++ List.replicate (place.blocks.length - 1) .dedent)

/-- Takes token after token, the ones taken so far being kept in reverse. -/
def run (lexField : List Char → Option (List Token)) :
    Nat → Place → List Token → List Char → Option (List Token)
  | 0, _, _, _ => none
  | fuel + 1, place, done, text =>
    if place.lineStart then
      let (column, rest) := indentation ⟨0, 0⟩ text
      match rest with
      | [] => finish place done
      | c :: _ =>
        if c == '#' then run lexField fuel place done (dropComment rest)
        else if isNewline c then run lexField fuel place done (dropNewline rest)
        else
          match layout column place.blocks with
          | some (tokens, blocks) =>
            run lexField fuel { place with blocks := blocks, lineStart := false }
              (tokens.reverse ++ done) rest
          | none => none
    else
      match text with
      | [] => finish place done
      | c :: rest =>
        if isSpace c then run lexField fuel place done rest
        else if c == '#' then run lexField fuel place done (dropComment text)
        else if isNewline c then
          if place.brackets > 0 then run lexField fuel place done (dropNewline text)
          else
            let done := if place.inLine then .newline :: done else done
            run lexField fuel { place with lineStart := true, inLine := false } done
              (dropNewline text)
        else if c == '\\' then
          if (rest.head?.map isNewline).getD false && !(dropNewline rest).isEmpty then
            run lexField fuel place done (dropNewline rest)
          else none
        else
          match scan lexField text with
          | some (token, left) =>
            match bracketChange token place.brackets with
            | some brackets =>
              run lexField fuel { place with brackets := brackets, inLine := true }
                (token :: done) left
            | none => none
          | none => none

def dropMark : List Char → List Char
  | '\ufeff' :: rest => rest
  | text => text

def tokens (text : List Char) : Option (List Token) :=
  let text := dropMark text
  run (fieldTokens (text.length + 1)) (2 * text.length + 2) ⟨[⟨0, 0⟩], 0, true, false⟩ [] text

end TreePass.Source.Lexer
