import TreePass.Proofs.Printing.Settling

/-!
A decoder of lines. It looks at the front of the line only: at a word, a bracket or the mark that
comes next. What it gives for the line of a settled tree is the tree.
-/

set_option autoImplicit false
set_option relaxedAutoImplicit false

namespace TreePass.Line

open Source Source.Lexer Printer

abbrev Decoder (α : Type) := List Char → Option (α × List Char)

def after? (text : String) (line : List Char) : Option (List Char) :=
  if text.toList.isPrefixOf line then some (line.drop text.toList.length) else none

def choose {α : Type} : List (String × α) → Decoder α
  | [], _ => none
  | (text, value) :: others, line =>
    match after? text line with
    | some rest => some (value, rest)
    | none => choose others line

/-- Items with commas between them, at least one, up to a closing text. -/
def items {α : Type} (close : String) (item : Decoder α) : Nat → Decoder (List α)
  | 0, _ => none
  | fuel + 1, line => do
    let (first, line) ← item line
    match after? ", " line with
    | some line => do
      let (others, line) ← items close item fuel line
      some (first :: others, line)
    | none => do
      let line ← after? close line
      some ([first], line)

/-- Items with commas between them, perhaps none, up to a closing text. -/
def listing {α : Type} (close : String) (item : Decoder α) : Decoder (List α) := fun line =>
  match after? close line with
  | some line => some ([], line)
  | none => items close item line.length line

def signs : List (String × UnaryOp) :=
  [("-", .minus), ("+", .plus), ("~", .bitInvert), ("not ", .not)]

/-- The texts of operators between two operands, the longer one of two that begin alike first. -/
def operators : List (String × Operator) :=
  [("is not ", .comparison .isNot), ("is ", .comparison .is), ("in ", .comparison .isIn),
    ("not in ", .comparison .notIn), ("== ", .comparison .equal), ("!= ", .comparison .notEqual),
    ("<= ", .comparison .lessEqual), ("< ", .comparison .less),
    (">= ", .comparison .greaterEqual), ("> ", .comparison .greater),
    ("and ", .boolean .and), ("or ", .boolean .or),
    ("+ ", .binary .add), ("- ", .binary .subtract), ("* ", .binary .multiply),
    ("/ ", .binary .divide), ("// ", .binary .floorDivide), ("% ", .binary .modulo),
    ("** ", .binary .power), ("@ ", .binary .matrixMultiply), ("<< ", .binary .leftShift),
    (">> ", .binary .rightShift), ("& ", .binary .bitAnd), ("| ", .binary .bitOr),
    ("^ ", .binary .bitXor)]

def joined (first : Expr) : List (Operator × Expr) → Expr
  | [(op, second)] => Reading.call op.text [first, second]
  | links => Reading.call "compare"
      (first :: links.flatMap fun link => [Reading.atomic (.str link.1.text), link.2])

def atom (word : List Char) : Expr :=
  if word.head?.any Char.isDigit then Reading.atomic (.int (Number.Numeral.digitsValue word))
  else Reading.nameExpr (String.ofList word)

section Forms

variable (operand : Decoder Expr)

/-- Operators with their second operands, up to a closing parenthesis. -/
def links : Nat → Decoder (List (Operator × Expr))
  | 0, _ => none
  | fuel + 1, line =>
    match after? ")" line with
    | some line => some ([], line)
    | none => do
      let line ← after? " " line
      let (op, line) ← choose operators line
      let (node, line) ← operand line
      let (others, line) ← links fuel line
      some ((op, node) :: others, line)

def argument : Decoder (Option String × Expr) := fun line => do
  let (value, line) ← operand line
  match after? " = " line with
  | none => some ((none, value), line)
  | some line => do
    let name ← value.symbolName?
    let (value, line) ← operand line
    some ((some name, value), line)

def parameter : Decoder (String × Option Expr) := fun line =>
  let name := String.ofList (line.takeWhile mayContinue)
  let line := line.dropWhile mayContinue
  match after? " = " line with
  | none => some ((name, none), line)
  | some line => do
    let (default, line) ← operand line
    some ((name, some default), line)

/-- What stands behind an opening parenthesis: an operation, or the callee of a call. -/
def enclosed : Decoder Expr := fun line =>
  match choose signs line with
  | some (op, line) => do
    let (node, line) ← operand line
    let line ← after? ")" line
    some (Reading.call op.text [node], line)
  | none => do
    let (first, line) ← operand line
    match after? ")(" line with
    | some line => do
      let (args, line) ← listing ")" (argument operand) line
      some (.call 0 first args, line)
    | none => do
      let (others, line) ← links operand line.length line
      some (joined first others, line)

/-- A form without the accesses behind it. -/
def start : Decoder Expr := fun line =>
  match after? "(" line with
  | some line => enclosed operand line
  | none =>
    let word := line.takeWhile mayContinue
    let line := line.dropWhile mayContinue
    match after? "(" line with
    | some line => do
      let (args, line) ← listing ")" (argument operand) line
      some (.call 0 (Reading.symbol (String.ofList word)) args, line)
    | none => some (atom word, line)

def accesses : Nat → Expr → Decoder Expr
  | 0, value, line => some (value, line)
  | fuel + 1, value, line =>
    match after? "." line with
    | some line =>
      accesses fuel
        (Reading.call "." [value,
          Reading.atomic (.str (String.ofList (line.takeWhile mayContinue)))])
        (line.dropWhile mayContinue)
    | none =>
      match after? "[" line with
      | some line => do
        let (inner, line) ← listing "]" operand line
        accesses fuel (Reading.call "[" (value :: inner)) line
      | none => some (value, line)

def form : Decoder Expr := fun line =>
  match after? "if (" line with
  | some line => do
    let (test, line) ← operand line
    let line ← after? ") " line
    let (body, line) ← operand line
    let line ← after? " else " line
    let (other, line) ← operand line
    some (Reading.call "if" [test, body, other], line)
  | none =>
    match after? "function(" line with
    | some line => do
      let (params, line) ← listing ")" (parameter operand) line
      let line ← after? " " line
      let (body, line) ← operand line
      some (Reading.call "function" [.pairlist 0 params, body], line)
    | none => do
      let (value, line) ← start operand line
      accesses operand line.length value line

end Forms

def expression : Nat → Decoder Expr
  | 0, _ => none
  | depth + 1, line => form (expression depth) line

theorem after?_append (text : String) (rest : List Char) :
    after? text (text.toList ++ rest) = some rest := by
  simp [after?]

private theorem eq_append_of_after? {text : String} {line rest : List Char}
    (found : after? text line = some rest) : line = text.toList ++ rest := by
  unfold after? at found
  split at found
  · rename_i begins
    obtain ⟨left, rfl⟩ : text.toList <+: line := by simpa using begins
    obtain rfl : left = rest := by simpa using found
    rfl
  · cases found

def Before (test : Char → Bool) (rest : List Char) : Prop := ∀ c ∈ rest.head?, test c = true

theorem before_nil (test : Char → Bool) : Before test [] := fun _ member => nomatch member

theorem before_append {test : Char → Bool} {text : String} (rest : List Char)
    (passes : text.toList.head?.any test = true) : Before test (text.toList ++ rest) := by
  intro c member
  cases chars : text.toList with
  | nil =>
    rw [chars] at passes
    cases passes
  | cons d more =>
    rw [chars] at passes member
    obtain rfl := Option.some.inj member
    exact passes

/-- A text does not stand before a line if its first character cannot come next. -/
theorem Before.after?_eq_none {test : Char → Bool} {line : List Char} (before : Before test line)
    {text : String} (fails : text.toList.head?.any (!test ·) = true) : after? text line = none := by
  cases found : after? text line with
  | none => rfl
  | some rest =>
    exfalso
    rw [eq_append_of_after? found] at before
    cases chars : text.toList with
    | nil =>
      rw [chars] at fails
      cases fails
    | cons c more =>
      rw [chars] at fails before
      have passes := before c rfl
      rw [List.head?_cons, Option.any_some, passes] at fails
      cases fails

theorem Before.mono {test test' : Char → Bool} {rest : List Char} (before : Before test rest)
    (weaker : ∀ c, test c = true → test' c = true) : Before test' rest :=
  fun c member => weaker c (before c member)

def endsWord (c : Char) : Bool := !mayContinue c

def endsAtom (c : Char) : Bool := !mayContinue c && c != '('

def endsForm (c : Char) : Bool := endsAtom c && c != '.' && c != '['

def endsItem (c : Char) : Bool := c == ',' || c == ')' || c == ']'

theorem endsWord_of_endsAtom (c : Char) (ends : endsAtom c = true) : endsWord c = true := by
  rw [endsAtom, Bool.and_eq_true] at ends
  exact ends.1

theorem endsAtom_of_endsForm (c : Char) (ends : endsForm c = true) : endsAtom c = true := by
  rw [endsForm, Bool.and_eq_true, Bool.and_eq_true] at ends
  exact ends.1.1

theorem endsWord_of_endsForm (c : Char) (ends : endsForm c = true) : endsWord c = true :=
  endsWord_of_endsAtom c (endsAtom_of_endsForm c ends)

theorem endsForm_of_endsItem (c : Char) (ends : endsItem c = true) : endsForm c = true := by
  simp only [endsItem, Bool.or_eq_true, beq_iff_eq] at ends
  rcases ends with (rfl | rfl) | rfl <;> decide

section Words

variable {word rest : List Char}

theorem split_word (all : word.all mayContinue = true) (ends : Before endsWord rest) :
    (word ++ rest).takeWhile mayContinue = word ∧ (word ++ rest).dropWhile mayContinue = rest :=
  takeWhile_append_stop (List.all_eq_true.mp all) fun c member => by
    simpa [endsWord] using ends c member

theorem of_after?_word (all : word.all mayContinue = true) (ends : Before endsWord rest)
    {text : String} {other more left : List Char} (found : after? text (word ++ rest) = some left)
    (parts : text.toList = other ++ more) (all' : other.all mayContinue = true)
    (ends' : more.head?.any endsWord = true) : word = other ∧ rest = more ++ left := by
  have whole := eq_append_of_after? found
  rw [parts, List.append_assoc] at whole
  have ends'' : Before endsWord (more ++ left) := by
    have before := @before_append endsWord (String.ofList more) left
      (by rw [String.toList_ofList]; exact ends')
    rwa [String.toList_ofList] at before
  have first := split_word all ends
  have second := split_word all' ends''
  rw [whole] at first
  exact ⟨first.1.symm.trans second.1, first.2.symm.trans second.2⟩

end Words

end TreePass.Line
