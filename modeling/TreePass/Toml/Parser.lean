import TreePass.Number.Numeral
import TreePass.Toml.Document

/-!
Reading documents. Arrays and inline tables nest at most as deep as the text is long, and every
step of a loop takes a character, so the length of the text bounds all recursion.
-/

set_option autoImplicit false
set_option relaxedAutoImplicit false

namespace TreePass.Toml

abbrev Parser (α : Type) := StateT (List Char) (Except Error) α

namespace Parser

def refuse {α : Type} : Parser α := throw .malformed

def need {α : Type} : Option α → Parser α
  | some a => pure a
  | none => refuse

def peek : Parser (Option Char) := do return (← get).head?

def nextIs (text : String) : Parser Bool := do return text.toList.isPrefixOf (← get)

def accept (text : String) : Parser Bool := do
  if ← nextIs text then
    modify (·.drop text.length)
    return true
  else return false

def expect (text : String) : Parser Unit := do
  if ← accept text then return () else refuse

/-- Drops characters while they pass a test. -/
def skip (test : Char → Bool) : Parser Unit := modify (·.dropWhile test)

def isSpace (c : Char) : Bool := c == ' ' || c == '\t'

def isSpaceOrFeed (c : Char) : Bool := isSpace c || c == '\n'

/-- Control characters, which only escapes can bring into a text. -/
def isControl (c : Char) : Bool := (c.toNat < 32 && c != '\t') || c.toNat == 127

def isKeyChar (c : Char) : Bool := c.isAlphanum || c == '-' || c == '_'

/-- The characters before the first place where `stop` comes next. -/
def splitAt? (stop : List Char) : List Char → Option (List Char × List Char)
  | [] => none
  | c :: rest =>
    if stop.isPrefixOf (c :: rest) then some ([], c :: rest)
    else (splitAt? stop rest).map fun (before, after) => (c :: before, after)

/-- Takes everything before `stop`, which has to come, and drops `stop`. -/
def upTo (stop : String) (isIllegal : Char → Bool) : Parser (List Char) := do
  let (before, after) ← need (splitAt? stop.toList (← get))
  if before.any isIllegal then refuse
  set (after.drop stop.length)
  return before

def comment : Parser Unit := do
  if ← nextIs "#" then
    let inner := ((← get).drop 1).takeWhile (· != '\n')
    if inner.any isControl then refuse
    modify (·.dropWhile (· != '\n'))

def spaceAndComments : Nat → Parser Unit
  | 0 => pure ()
  | fuel + 1 => do
    skip isSpaceOrFeed
    if ← nextIs "#" then
      comment
      spaceAndComments fuel

/-- Drops all blanks, line feeds and comments up to the next value. -/
def gap : Parser Unit := do spaceAndComments ((← get).length + 1)

def hexValue? (c : Char) : Option Nat :=
  if c.isDigit then some (c.toNat - '0'.toNat)
  else if 'a' ≤ c && c ≤ 'f' then some (c.toNat - 'a'.toNat + 10)
  else if 'A' ≤ c && c ≤ 'F' then some (c.toNat - 'A'.toNat + 10)
  else none

def codePoint (count : Nat) : Parser (List Char) := do
  let digits := (← get).take count
  let values := digits.filterMap hexValue?
  if values.length ≠ count then refuse
  let code := values.foldl (fun total d => total * 16 + d) 0
  if code.isValidChar then
    modify (·.drop count)
    return [Char.ofNat code]
  else refuse

def letterEscapes : List (Char × Char) :=
  [('b', '\x08'), ('t', '\t'), ('n', '\n'), ('f', '\x0c'), ('r', '\r'), ('"', '"'),
    ('\\', '\\')]

/-- A backslash before a line end drops the blanks after it. -/
def lineContinuation (c : Char) : Parser (List Char) := do
  if c != '\n' then
    skip isSpace
    match ← peek with
    | none => return []
    | some '\n' => modify (·.drop 1)
    | some _ => refuse
  skip isSpaceOrFeed
  return []

/-- What an escape stands for; its backslash has been taken. -/
def escape (multiline : Bool) : Parser (List Char) := do
  match ← get with
  | [] => refuse
  | c :: rest =>
    set rest
    if multiline && isSpaceOrFeed c then lineContinuation c
    else if c == 'u' then codePoint 4
    else if c == 'U' then codePoint 8
    else return [← need (letterEscapes.lookup c)]

def basicText (multiline : Bool) : Nat → Parser (List Char)
  | 0 => refuse
  | fuel + 1 => do
    match ← get with
    | [] => refuse
    | c :: rest =>
      if c == '"' && !multiline then
        set rest
        return []
      else if c == '"' && (← nextIs "\"\"\"") then
        modify (·.drop 3)
        return []
      else if c == '\\' then
        set rest
        let first ← escape multiline
        return first ++ (← basicText multiline fuel)
      else if isControl c && !(multiline && c == '\n') then refuse
      else
        set rest
        return c :: (← basicText multiline fuel)

/-- A text on one line; its opening quote has been taken. -/
def oneLineText : Parser String := do
  return String.ofList (← basicText false ((← get).length + 1))

/-- A text without escapes; its opening quote has been taken. -/
def literalText : Parser String := do return String.ofList (← upTo "'" isControl)

/-- Up to two more quotes before the closing ones belong to the text. -/
def extraQuotes (quote : String) : Parser String := do
  if ← accept quote then
    if ← accept quote then return quote ++ quote else return quote
  else return ""

/-- A text of several lines; its opening quotes have been taken. A line feed right after them is
dropped. -/
def multilineText (literal : Bool) : Parser String := do
  let _ ← accept "\n"
  if literal then
    let text ← upTo "'''" fun c => isControl c && c != '\n'
    return String.ofList text ++ (← extraQuotes "'")
  else
    let text ← basicText true ((← get).length + 1)
    return String.ofList text ++ (← extraQuotes "\"")

def keyPart : Parser String := do
  match ← peek with
  | some '\'' =>
    modify (·.drop 1)
    literalText
  | some '"' =>
    modify (·.drop 1)
    oneLineText
  | some c =>
    if isKeyChar c then
      let part := (← get).takeWhile isKeyChar
      modify (·.drop part.length)
      return String.ofList part
    else refuse
  | none => refuse

def keyParts : Nat → Parser Key
  | 0 => pure []
  | fuel + 1 => do
    skip isSpace
    if ← accept "." then
      skip isSpace
      let part ← keyPart
      return part :: (← keyParts fuel)
    else return []

def key : Parser Key := do
  let first ← keyPart
  return first :: (← keyParts ((← get).length + 1))

def digits? (count low high : Nat) (text : List Char) : Option (Nat × List Char) :=
  let digits := (text.take count).takeWhile Char.isDigit
  let value := Number.Numeral.digitsValue digits
  if digits.length = count ∧ low ≤ value ∧ value ≤ high then some (value, text.drop count)
  else none

def drop? (c : Char) : List Char → Option (List Char)
  | d :: rest => if c = d then some rest else none
  | [] => none

def time? (text : List Char) : Option (List Char) := do
  let (_, text) ← digits? 2 0 23 text
  let (_, text) ← digits? 2 0 59 (← drop? ':' text)
  let (_, text) ← digits? 2 0 59 (← drop? ':' text)
  match text with
  | '.' :: c :: rest => return if c.isDigit then rest.dropWhile Char.isDigit else text
  | _ => return text

def offset (text : List Char) : List Char :=
  match text with
  | c :: rest =>
    if c == 'Z' || c == 'z' then rest
    else if c == '+' || c == '-' then
      (do
        let (_, more) ← digits? 2 0 23 rest
        let (_, more) ← digits? 2 0 59 (← drop? ':' more)
        return more).getD text
    else text
  | [] => []

def daysIn (year month : Nat) : Nat :=
  if month = 2 then
    if year % 4 = 0 ∧ (year % 100 ≠ 0 ∨ year % 400 = 0) then 29 else 28
  else if [4, 6, 9, 11].contains month then 30
  else 31

/-- A date, perhaps with a time: whether there is such a day, and what follows. -/
def date? (text : List Char) : Option (Bool × List Char) := do
  let (year, text) ← digits? 4 0 9999 text
  let (month, text) ← digits? 2 1 12 (← drop? '-' text)
  let (day, text) ← digits? 2 1 31 (← drop? '-' text)
  let exists_ := decide (1 ≤ year ∧ day ≤ daysIn year month)
  match text with
  | c :: rest =>
    if c == 'T' || c == 't' || c == ' ' then
      match time? rest with
      | some after => return (exists_, offset after)
      | none => return (exists_, text)
    else return (exists_, text)
  | [] => return (exists_, text)

/-- Digits of a class with single low lines between them: what was taken, and the rest. -/
def digitRun (isDigit : Char → Bool) : List Char → List Char × List Char
  | '_' :: c :: rest =>
    if isDigit c then
      let (taken, after) := digitRun isDigit rest
      ('_' :: c :: taken, after)
    else ([], '_' :: c :: rest)
  | c :: rest =>
    if isDigit c then
      let (taken, after) := digitRun isDigit rest
      (c :: taken, after)
    else ([], c :: rest)
  | [] => ([], [])

/-- Digits of a class, at least one, that do not begin with a low line. -/
def digitRun? (isDigit : Char → Bool) (text : List Char) : Option (List Char × List Char) :=
  match text with
  | c :: _ => if isDigit c then some (digitRun isDigit text) else none
  | [] => none

def valueIn (base : Nat) (digits : List Char) : Nat :=
  (digits.filterMap hexValue?).foldl (fun total d => total * base + d) 0

def based? : List Char → Option (Item × List Char)
  | '0' :: c :: rest => do
    let (base, isDigit) ←
      if c == 'x' then some (16, fun d => (hexValue? d).isSome)
      else if c == 'b' then some (2, fun d => d == '0' || d == '1')
      else if c == 'o' then some (8, fun d => '0' ≤ d && d ≤ '7')
      else none
    let (digits, after) ← digitRun? isDigit rest
    return (.integer (valueIn base digits), after)
  | _ => none

def fraction (text : List Char) : List Char × List Char :=
  match text with
  | '.' :: rest =>
    match digitRun? Char.isDigit rest with
    | some (digits, after) => ('.' :: digits, after)
    | none => ([], text)
  | _ => ([], text)

def exponent (text : List Char) : List Char × List Char :=
  match text with
  | c :: rest =>
    if c == 'e' || c == 'E' then
      let (sign, more) :=
        match rest with
        | '+' :: more => (['+'], more)
        | '-' :: more => (['-'], more)
        | _ => ([], rest)
      match digitRun? Char.isDigit more with
      | some (digits, after) => (c :: sign ++ digits, after)
      | none => ([], text)
    else ([], text)
  | [] => ([], [])

/-- The whole part of a number: a zero, or digits that begin with another one. -/
def whole? (text : List Char) : Option (List Char × List Char) :=
  match text with
  | '0' :: rest => some (['0'], rest)
  | _ => digitRun? Char.isDigit text

def decimal? (text : List Char) : Option (List Char × Bool × List Char) := do
  let (sign, unsigned) :=
    match text with
    | '+' :: rest => (['+'], rest)
    | '-' :: rest => (['-'], rest)
    | _ => ([], text)
  let (whole, rest) ← whole? unsigned
  let (part, rest) := fraction rest
  let (power, rest) := exponent rest
  return (sign ++ whole ++ part ++ power, part.isEmpty && power.isEmpty, rest)

def number (text : List Char) (isWhole : Bool) : Parser Item :=
  let written := String.ofList text
  if isWhole then
    match Number.Numeral.int? written with
    | some i => return .integer i
    | none => throw (.longInteger (text.filter Char.isDigit).length)
  else do return .real (← need (Number.Numeral.float? written))

def realWords : List String := ["inf", "nan", "-inf", "+inf", "-nan", "+nan"]

def scalar : Parser Item := do
  let text ← get
  match date? text with
  | some (true, rest) =>
    set rest
    return .moment
  | some (false, _) => refuse
  | none =>
    match time? text with
    | some rest =>
      set rest
      return .moment
    | none =>
      match based? text with
      | some (item, rest) =>
        set rest
        return item
      | none =>
        match decimal? text with
        | some (written, isWhole, rest) =>
          set rest
          number written isWhole
        | none =>
          let word ← need (realWords.find? (·.toList.isPrefixOf text))
          modify (·.drop word.length)
          return .real (← need (Number.Numeral.float? word))

/-- The items of an array; its opening bracket and the gap after it have been taken. -/
def arrayItems (value : Parser Item) : Nat → Parser (List Item)
  | 0 => refuse
  | fuel + 1 => do
    if ← accept "]" then return []
    let first ← value
    gap
    if ← accept "]" then return [first]
    expect ","
    gap
    return first :: (← arrayItems value fuel)

def keyValue (value : Parser Item) : Parser (Key × Item) := do
  let name ← key
  expect "="
  skip isSpace
  return (name, ← value)

/-- The entries of an inline table, after those that have been read and closed. -/
def inlineEntries (value : Parser Item) (entries : Entries) (closed : List Key) :
    Nat → Parser Entries
  | 0 => refuse
  | fuel + 1 => do
    let (name, item) ← keyValue value
    if closed.any (·.isPrefixOf name) then refuse
    let entries ← need
      (entries.within false (Entries.add (name.getLastD "") item) name.dropLast)
    skip isSpace
    if ← accept "\x7d" then return entries
    expect ","
    skip isSpace
    inlineEntries value entries (if item.isNested then name :: closed else closed) fuel

def value : Nat → Parser Item
  | 0 => refuse
  | depth + 1 => do
    let fuel := (← get).length + 1
    if ← accept "\"\"\"" then return .text (← multilineText false)
    else if ← accept "\"" then return .text (← oneLineText)
    else if ← accept "'''" then return .text (← multilineText true)
    else if ← accept "'" then return .text (← literalText)
    else if ← accept "true" then return .truth true
    else if ← accept "false" then return .truth false
    else if ← accept "[" then
      gap
      return .array (← arrayItems (value depth) fuel)
    else if ← accept "\x7b" then
      skip isSpace
      if ← accept "\x7d" then return .table []
      return .table (← inlineEntries (value depth) [] [] fuel)
    else scalar

def statement (document : Document) : Parser Document := do
  if ← accept "[[" then
    skip isSpace
    let name ← key
    let document ← need (document.endSection.declareElement name)
    expect "]]"
    return document
  else if ← accept "[" then
    skip isSpace
    let name ← key
    let document ← need (document.endSection.declareTable name)
    expect "]"
    return document
  else
    let (name, item) ← keyValue (value ((← get).length + 1))
    need (document.assign name item)

/-- All lines of a document: at most one statement and a comment each. -/
def lines (document : Document) : Nat → Parser Document
  | 0 => refuse
  | fuel + 1 => do
    skip isSpace
    let document ←
      match ← peek with
      | none | some '\n' | some '#' => pure document
      | some _ => statement document
    skip isSpace
    comment
    match ← get with
    | [] => return document
    | '\n' :: rest =>
      set rest
      lines document fuel
    | _ => refuse

end Parser

def joinLineEnds : List Char → List Char
  | '\r' :: '\n' :: rest => '\n' :: joinLineEnds rest
  | c :: rest => c :: joinLineEnds rest
  | [] => []

def parse (text : String) : Except Error Entries := do
  let chars := joinLineEnds text.toList
  let (document, _) ← (Parser.lines {} (chars.length + 1)).run chars
  return document.root

end TreePass.Toml
