import TreePass.Proofs.Positions
import TreePass.Proofs.Printing.Calls
import TreePass.Proofs.Source.Steps
import Mathlib.Tactic.Choose

/-!
The expressions whose line is an expression of the source language, and reads as the same tree:
names, constants, whole numbers, operations and comparisons in parentheses, calls, members and
subscripts, in any nesting.
-/

set_option autoImplicit false
set_option relaxedAutoImplicit false

namespace TreePass

open Source Source.Lexer Source.Grammar

def namedArgs (items : List (String × Expr)) : List (Option String × Expr) :=
  items.map fun item => (some item.1, item.2)

private theorem numberTerm_toString (n : Nat) : numberTerm (toString n) = .integer
    (toString n) := by
  have digit {c : Char} (member : c ∈ digits n) : c.isDigit = true := isDigit_of_mem_digits member
  have noMark : ((digits n).getLast? == some 'j' || (digits n).getLast? == some 'J') = false := by
    cases last : (digits n).getLast? with
    | none => rfl
    | some c =>
      exact forall_isDigit (p := fun c => (some c == some 'j' || some c == some 'J') = false)
        (by decide) (digit (List.mem_of_getLast? last))
  have noPoint : ((digits n).any fun c => c == '.' || c == 'e' || c == 'E') = false := by
    rw [List.any_eq_false]
    intro c member
    exact forall_isDigit (p := fun c => ¬(c == '.' || c == 'e' || c == 'E') = true)
      (by decide) (digit member)
  rw [numberTerm, toList_toString]
  simp only [noMark, noPoint, Bool.false_eq_true, if_false, ite_self]

namespace Operator

def tokens : Operator → List Token
  | binary op => [.mark op.text]
  | boolean op => [.word op.text]
  | comparison op => op.tokens

def term : Operator → Term → Term → Term
  | binary op, a, b => .binary op a b
  | boolean op, a, b => .boolean op a b
  | comparison op, a, b => .comparison a [(op, b)]

theorem scans (op : Operator) : Scans EndsMark op.text.toList op.tokens := by
  cases op with
  | binary op => exact Scans.operator op
  | boolean op => exact Scans.boolean op
  | comparison op => exact Scans.comparison op

theorem whole (op : Operator) {tokens tokens' : List Token} {a b : Term} (first : Operand tokens a)
    (second : Operand tokens' b) : Whole (tokens ++ (op.tokens ++ tokens')) (op.term a b) := by
  cases op with
  | binary op => exact .binary first second op
  | boolean op => exact .boolean first second op
  | comparison op =>
    have links : linkTokens [(op, tokens', b)] = op.tokens ++ tokens' := by simp [linkTokens]
    have whole := Whole.comparison first [(op, tokens', b)] (by simp) (by simpa using second)
    rwa [links] at whole

theorem read (op : Operator) {characters : CharacterNames} {a b : Term} {x y : Expr}
    (first : Reading.expr characters a = .ok x) (second : Reading.expr characters b = .ok y) :
    Reading.expr characters (op.term a b) = .ok (Reading.call op.text [x, y]) := by
  cases op with
  | binary op =>
    rw [term, Reading.expr, first, second]
    rfl
  | boolean op =>
    rw [term, Reading.expr, first, second]
    rfl
  | comparison op =>
    rw [term, Reading.expr, Reading.operands, Reading.operands, first, second]
    rfl

theorem newline_not_mem (op : Operator) : '\n' ∉ op.text.toList := by
  rcases op with op | op | op <;> cases op <;> decide

end Operator

/-- The trees whose line can be read back. -/
inductive Rereadable : Expr → Prop
  | name (tag : Tag) {text : String} (named : isName text = true) : Rereadable (.symbol tag text)
  | truth (tag : Tag) (value : Bool) : Rereadable (.atomic tag (.bool value))
  | nothing (tag : Tag) : Rereadable (.atomic tag .none)
  | number (tag : Tag) {n : Nat} (short : (toString n).length ≤ Number.Numeral.maxDigits) :
    Rereadable (.atomic tag (.int n))
  | operation (tag mark : Tag) (op : Operator) {a b : Expr} :
    Rereadable a → Rereadable b →
    Rereadable (.call tag (.symbol mark op.text) [(none, a), (none, b)])
  | unary (tag mark : Tag) (op : UnaryOp) {a : Expr} :
    Rereadable a → Rereadable (.call tag (.symbol mark op.text) [(none, a)])
  | chain (tag mark : Tag) {first : Expr} {links : List (CompareOp × Tag × Expr)}
    (many : 2 ≤ links.length) :
    Rereadable first → (∀ link ∈ links, Rereadable link.2.2) →
    Rereadable (.call tag (.symbol mark "compare") ((none, first) :: chainArgs links))
  | call (tag : Tag) {callee : Expr} (other : callee.symbolName? ≠ some "compare")
    {unnamed : List Expr} {named : List (String × Expr)}
    (names : ∀ a ∈ named, isName a.1 = true) :
    Rereadable callee → (∀ a ∈ unnamed, Rereadable a) → (∀ a ∈ named, Rereadable a.2) →
    Rereadable (.call tag callee (unnamedArgs unnamed ++ namedArgs named))
  | member (tag mark tag' : Tag) {value : Expr} {name : String} (named : isName name = true)
    (noNumber : ∀ t i, value ≠ .atomic t (.int i)) :
    Rereadable value →
    Rereadable (.call tag (.symbol mark ".") [(none, value), (none, .atomic tag' (.str name))])
  | subscript (tag mark : Tag) {value : Expr} {items : List Expr} (some_ : items ≠ []) :
    Rereadable value → (∀ item ∈ items, Rereadable item) →
    Rereadable (.call tag (.symbol mark "[") ((none, value) :: unnamedArgs items))

/-- The line of a tree is divided into the tokens of an operand, which is read as the tree. -/
structure Reread (node : Expr) (tokens : List Token) (term : Term) : Prop where
  operand : Operand tokens term
  begins : Scans.BeginsOperand node.render.toList
  line : '\n' ∉ node.render.toList
  scans : Scans EndsNumber node.render.toList tokens
  word : (∀ t i, node ≠ .atomic t (.int i)) → Scans EndsWord node.render.toList tokens
  read (characters : CharacterNames) : Reading.expr characters term = .ok node.bare

namespace Reread

private theorem endsWord_of_number {rest : List Char} (ends : EndsNumber rest) :
    EndsWord rest := ends.1

private theorem ofWord {node : Expr} {tokens : List Token} {term : Term}
    (operand : Operand tokens term)
    (begins : Scans.BeginsOperand node.render.toList) (line : '\n' ∉ node.render.toList)
    (word : Scans EndsWord node.render.toList tokens)
    (read : ∀ characters, Reading.expr characters term = .ok node.bare) :
    Reread node tokens term :=
  ⟨operand, begins, line, word.mono fun _ => endsWord_of_number, fun _ => word, read⟩

theorem newline_not_mem {word : List Char} (identifier : Text.Identifier.isIdentifier word = true) :
    '\n' ∉ word := by
  intro member
  have continues := Text.Identifier.mayContinue_of_isIdentifier identifier _ member
  revert continues
  decide

private theorem begins_word {word : List Char}
    (identifier : Text.Identifier.isIdentifier word = true) : Scans.BeginsOperand word := by
  obtain ⟨c, more, rfl, starts⟩ := Text.Identifier.isIdentifier_cases identifier
  exact ⟨c, rfl, Or.inl (Text.Identifier.mayContinue_of_isStart starts)⟩

private theorem begins_append {text : List Char} (begins : Scans.BeginsOperand text)
    (rest : List Char) : Scans.BeginsOperand (text ++ rest) := by
  obtain ⟨c, first, begins⟩ := begins
  cases text with
  | nil => cases first
  | cons d more => exact ⟨c, first, begins⟩

private theorem ofIdentifier {node : Expr} {text : String}
    (identifier : Text.Identifier.isIdentifier text.toList = true)
    (accepted : text ∈ Token.keywords → text ∈ Term.constants) (rendered : node.render = text)
    (read : Reading.nameExpr text = node.bare) : Reread node [.word text] (.name text) := by
  have scans := Scans.word identifier
  rw [String.ofList_toList] at scans
  have begins := begins_word identifier
  rw [← rendered] at identifier begins scans
  rw [rendered] at scans
  refine ofWord (.name accepted) begins (newline_not_mem identifier) ?_ fun _ =>
    congrArg Except.ok read
  rw [rendered]
  exact scans

theorem name (tag : Tag) {text : String} (named : isName text = true) :
    Reread (.symbol tag text) [.word text] (.name text) := by
  obtain ⟨identifier, noKeyword⟩ := isName_iff.mp named
  exact ofIdentifier identifier (fun keyword => absurd keyword noKeyword) rfl
    (Reading.nameExpr_of_isName named)

theorem truth (tag : Tag) (value : Bool) :
    ∃ text, Reread (.atomic tag (.bool value)) [.word text] (.name text) := by
  cases value with
  | true => exact ⟨"True", ofIdentifier (by decide) (by decide) rfl rfl⟩
  | false => exact ⟨"False", ofIdentifier (by decide) (by decide) rfl rfl⟩

theorem nothing (tag : Tag) : Reread (.atomic tag .none) [.word "None"] (.name "None") :=
  ofIdentifier (by decide) (by decide) rfl rfl

theorem number (tag : Tag) {n : Nat} (short : (toString n).length ≤ Number.Numeral.maxDigits) :
    Reread (.atomic tag (.int n)) [.number (toString n)] (.integer (toString n)) := by
  have text : (Node.render (.atomic tag (.int n))).toList = digits n := toList_toString n
  have digit {c : Char} (member : c ∈ digits n) : c.isDigit = true := isDigit_of_mem_digits member
  have whole := numberTerm_toString n
  refine ⟨.number whole, ?_, ?_, ?_, ?_, ?_⟩
  · rw [text]
    cases word : digits n with
    | nil => exact absurd word (digits_ne_nil n)
    | cons c more =>
      exact ⟨c, rfl, Or.inl (mayContinue_of_isDigit (digit (by rw [word]; simp)))⟩
  · rw [text]
    intro member
    cases digit member
  · rw [text]
    exact Scans.number n
  · exact fun noNumber => absurd rfl (noNumber tag n)
  · intro characters
    rw [Reading.expr, integer?_toString short]
    rfl

private theorem grouped {node : Expr} {inner : String} {tokens : List Token} {term : Term}
    (rendered : node.render = "(" ++ inner ++ ")") (line : '\n' ∉ inner.toList)
    (scans : Scans EndsNumber inner.toList tokens) (whole : Whole tokens term)
    (leads : Leads tokens) (read : ∀ characters, Reading.expr characters term = .ok node.bare) :
    Reread node (.mark "(" :: (tokens ++ [.mark ")"])) (.group term) := by
  have text : node.render.toList = '(' :: (inner.toList ++ [')']) := by
    rw [rendered]
    simp
  refine ofWord (.group whole leads) ?_ ?_ ?_ ?_
  · rw [text]
    exact ⟨'(', rfl, Or.inr rfl⟩
  · rw [text]
    simpa using line
  · rw [text]
    exact scans.parentheses.mono fun _ _ => trivial
  · intro characters
    rw [Reading.expr]
    exact read characters

/-- Tokens that begin as an operand lead an expression, whatever operator comes after them. -/
theorem leads_append {tokens more : List Token} (begins : Begins tokens)
    (next : ∀ t ∈ more.head?, isBinding t = false) : Leads (tokens ++ more) :=
  .operand (begins.append next)

theorem operation (tag mark : Tag) (op : Operator) {a b : Expr} {tokens tokens' : List Token}
    {term term' : Term} (first : Reread a tokens term) (second : Reread b tokens' term') :
    ∃ tokens term,
      Reread (.call tag (.symbol mark op.text) [(none, a), (none, b)]) tokens term := by
  have inner : (a.render ++ " " ++ op.text ++ " " ++ b.render).toList =
      a.render.toList ++ ' ' :: (op.text.toList ++ ' ' :: b.render.toList) := by
    simp
  have next : ∀ t ∈ (op.tokens ++ tokens').head?, isBinding t = false := by
    rcases op with op | op | op <;> cases op <;> simp [Operator.tokens, CompareOp.tokens] <;> rfl
  refine ⟨_, _, grouped (Node.render_operation tag mark op a b) ?_ ?_
    (op.whole first.operand second.operand) (leads_append first.operand.begins next)
    fun characters => op.read (first.read characters) (second.read characters)⟩
  · rw [inner]
    simpa using ⟨first.line, op.newline_not_mem, second.line⟩
  · rw [inner]
    exact Scans.apart first.scans op.scans second.scans

theorem unary (tag mark : Tag) (op : UnaryOp) {a : Expr} {tokens : List Token} {term : Term}
    (operand : Reread a tokens term) :
    ∃ tokens term, Reread (.call tag (.symbol mark op.text) [(none, a)]) tokens term := by
  have leads : Leads (op.tokens ++ tokens) := by
    cases op with
    | minus | plus | bitInvert => exact .sign (by decide) _
    | not => exact .negation operand.operand.begins
  have read (characters : CharacterNames) : Reading.expr characters (.unary op term) =
      .ok (Node.bare (.call tag (.symbol mark op.text) [(none, a)])) := by
    rw [Reading.expr, operand.read]
    rfl
  refine ⟨_, _, grouped (Node.render_unary tag mark op a) ?_ ?_ (.unary operand.operand op) leads
    read⟩
  · have signed : '\n' ∉ op.sign.toList := by cases op <;> decide
    rw [String.toList_append]
    simpa using ⟨signed, operand.line⟩
  · rw [String.toList_append]
    refine (Scans.sign op).append operand.scans fun rest _ => ?_
    exact begins_append operand.begins rest

private theorem scans_links {links : List (CompareOp × Tag × Expr)} {tokensOf : Expr → List Token}
    {termOf : Expr → Term}
    (operands : ∀ link ∈ links, Reread link.2.2 (tokensOf link.2.2) (termOf link.2.2)) :
    Scans EndsNumber ((linkTexts links).flatMap fun text => ' ' :: text.toList)
      (linkTokens (links.map fun link => (link.1, tokensOf link.2.2, termOf link.2.2))) := by
  induction links with
  | nil => exact Scans.nil.mono fun _ _ => trivial
  | cons link more ih =>
    have first := (operands link List.mem_cons_self).scans
    have later := ih fun link member => operands link (List.mem_cons_of_mem _ member)
    have text : (link.1.text ++ " " ++ link.2.2.render).toList =
        link.1.text.toList ++ ' ' :: link.2.2.render.toList := by
      simp
    have one : Scans EndsNumber (' ' :: (link.1.text.toList ++ ' ' :: link.2.2.render.toList))
        (link.1.tokens ++ tokensOf link.2.2) :=
      ((Scans.comparison link.1).append first.afterSpace fun _ _ => rfl).afterSpace
    rw [linkTexts, List.map_cons, List.flatMap_cons, List.map_cons, linkTokens, List.flatMap_cons,
      text]
    refine one.append later fun rest ends => ?_
    cases more with
    | nil => exact ends
    | cons _ _ => exact Scans.endsNumber_space _

theorem chain (tag mark : Tag) {first : Expr} {links : List (CompareOp × Tag × Expr)}
    (many : 2 ≤ links.length) {tokens : List Token} {term : Term} (start : Reread first tokens term)
    {tokensOf : Expr → List Token} {termOf : Expr → Term}
    (operands : ∀ link ∈ links, Reread link.2.2 (tokensOf link.2.2) (termOf link.2.2)) :
    ∃ tokens term, Reread
      (.call tag (.symbol mark "compare") ((none, first) :: chainArgs links)) tokens term := by
  have some_ : links ≠ [] := by
    rintro rfl
    simp at many
  have line : '\n' ∉ (linkTexts links).flatMap fun text => ' ' :: text.toList := by
    intro member
    obtain ⟨text, listed, member⟩ := List.mem_flatMap.mp member
    obtain ⟨link, member', rfl⟩ := List.mem_map.mp listed
    have noLine : '\n' ∉ link.1.text.toList := by cases link.1 <;> decide
    have noLine' := (operands link member').line
    simp [noLine, noLine'] at member
  have reads (characters : CharacterNames) : Reading.operands characters
      (linkTerms (links.map fun link => (link.1, tokensOf link.2.2, termOf link.2.2))) =
      .ok (links.map fun link => (link.1, link.2.2.bare)) := by
    rw [Reading.operands_eq_ok, linkTerms, List.map_map, List.forall₂_map_left_iff,
      List.forall₂_map_right_iff, List.forall₂_same]
    exact fun link listed => ⟨rfl, (operands link listed).read characters⟩
  have args (links : List (CompareOp × Tag × Expr)) :
      (Reading.compareArgs (links.map fun link => (link.1, link.2.2.bare))).map (none, ·) =
        Node.bareArgs (chainArgs links) := by
    induction links with
    | nil => rfl
    | cons link more ih =>
      rw [List.map_cons, Reading.compareArgs, List.map_cons, List.map_cons, ih]
      rfl
  refine ⟨_, _, grouped (Node.render_chain tag mark first some_) ?_ ?_
    (.comparison start.operand
      (links.map fun link => (link.1, tokensOf link.2.2, termOf link.2.2))
      (by simpa using some_) ?_)
    (leads_append start.operand.begins ?_) ?_⟩
  · rw [toList_joinSpaces]
    simpa using ⟨start.line, by simpa using line⟩
  · rw [toList_joinSpaces]
    refine start.scans.append (scans_links operands) fun rest ends => ?_
    cases links with
    | nil => exact absurd rfl some_
    | cons _ _ => exact Scans.endsNumber_space _
  · intro link listed
    obtain ⟨link, member, rfl⟩ := List.mem_map.mp listed
    exact (operands link member).operand
  · cases links with
    | nil => exact absurd rfl some_
    | cons link more =>
      rw [List.map_cons, linkTokens, List.flatMap_cons]
      cases link.1 <;> simp [CompareOp.tokens] <;> rfl
  · have several : Reading.comparisonExpr first.bare
        (links.map fun link => (link.1, link.2.2.bare)) =
        Reading.call "compare" (first.bare ::
          Reading.compareArgs (links.map fun link => (link.1, link.2.2.bare))) := by
      rcases links with _ | ⟨link, _ | ⟨next, more⟩⟩
      · simp at many
      · simp at many
      · rfl
    intro characters
    rw [Reading.expr, start.read, reads]
    change Except.ok (Reading.comparisonExpr _ _) = _
    rw [several, Reading.call, List.map_cons, args]
    rfl

theorem member (tag mark tag' : Tag) {value : Expr} {name : String} (named : isName name = true)
    (noNumber : ∀ t i, value ≠ .atomic t (.int i)) {tokens : List Token} {term : Term}
    (base : Reread value tokens term) :
    Reread (.call tag (.symbol mark ".") [(none, value), (none, .atomic tag' (.str name))])
      (tokens ++ [.mark ".", .word name]) (.member term name) := by
  obtain ⟨identifier, noKeyword⟩ := isName_iff.mp named
  have text : (Node.render (.call tag (.symbol mark ".")
      [(none, value), (none, .atomic tag' (.str name))])).toList =
      value.render.toList ++ '.' :: name.toList := by
    rw [Node.render_member]
    simp
  have point : Scans EndsWord ('.' :: name.toList) [.mark ".", .word name] := by
    have scans := Scans.member identifier
    rwa [String.ofList_toList] at scans
  refine ofWord (base.operand.member noKeyword) ?_ ?_ ?_ ?_
  · rw [text]
    exact begins_append base.begins _
  · rw [text]
    simpa using ⟨base.line, newline_not_mem identifier⟩
  · rw [text]
    refine (base.word noNumber).append point fun rest _ c member => ?_
    obtain rfl : '.' = c := Option.some.inj member
    decide
  · intro characters
    rw [Reading.expr, base.read]
    rfl

private theorem newline_not_mem_commas {texts : List (List Char)}
    (lines : ∀ text ∈ texts, '\n' ∉ text) : '\n' ∉ [',', ' '].intercalate texts := by
  induction texts with
  | nil => simp
  | cons text more ih =>
    have first := lines text List.mem_cons_self
    have later := ih fun text member => lines text (List.mem_cons_of_mem _ member)
    cases more with
    | nil => simpa using first
    | cons second others =>
      rw [List.intercalate_cons_cons]
      simp [first, later]

private theorem read_indices {characters : CharacterNames} {items : List Expr}
    {termOf : Expr → Term}
    (reads : ∀ item ∈ items, Reading.expr characters (termOf item) = .ok item.bare) :
    Reading.indices characters (items.map fun item => .item (termOf item)) =
      .ok (items.map Node.bare) := by
  rw [Reading.indices_eq_ok, List.forall₂_map_left_iff, List.forall₂_map_right_iff,
    List.forall₂_same]
  exact reads

private theorem bareArgs_unnamed (items : List Expr) :
    (items.map Node.bare).map (none, ·) = Node.bareArgs (unnamedArgs items) := by
  induction items with
  | nil => rfl
  | cons item more ih => exact congrArg (_ :: ·) ih

theorem subscript (tag mark : Tag) {value : Expr} {items : List Expr} (some_ : items ≠ [])
    {tokens : List Token} {term : Term} (base : Reread value tokens term)
    {tokensOf : Expr → List Token} {termOf : Expr → Term}
    (operands : ∀ item ∈ items, Reread item (tokensOf item) (termOf item)) :
    ∃ tokens term, Reread
      (.call tag (.symbol mark "[") ((none, value) :: unnamedArgs items)) tokens term := by
  have text : (Node.render (.call tag (.symbol mark "[")
      ((none, value) :: unnamedArgs items))).toList = value.render.toList ++
        '[' :: ([',', ' '].intercalate (items.map fun item => item.render.toList) ++ [']']) := by
    rw [Node.render_subscript tag mark value some_, String.toList_append, String.toList_append,
      String.toList_append, toList_joinCommas, List.map_map]
    simp [Function.comp_def]
  have inside : Scans EndsNumber
      ([',', ' '].intercalate (items.map fun item => item.render.toList))
      (commas (items.map tokensOf)) :=
    Scans.commas fun item member => (operands item member).scans
  have operand := base.operand.subscript (items.map fun item => (tokensOf item, termOf item))
    (by simpa using some_) fun item listed => by
      obtain ⟨item, member, rfl⟩ := List.mem_map.mp listed
      exact (operands item member).operand
  rw [List.map_map, List.map_map] at operand
  refine ⟨_, _, ofWord operand ?_ ?_ ?_ ?_⟩
  · rw [text]
    exact begins_append base.begins _
  · have lines : '\n' ∉ [',', ' '].intercalate (items.map fun item => item.render.toList) := by
      refine newline_not_mem_commas fun text listed => ?_
      obtain ⟨item, member, rfl⟩ := List.mem_map.mp listed
      exact (operands item member).line
    rw [text]
    simpa using ⟨base.line, lines⟩
  · rw [text]
    refine (base.scans.append inside.brackets fun rest _ => ?_).mono fun _ _ => trivial
    refine ⟨fun c member => ?_, by simp⟩
    obtain rfl : '[' = c := Option.some.inj member
    decide
  · intro characters
    have reads := read_indices fun item member => (operands item member).read characters
    rw [Reading.expr, base.read]
    change (Reading.indices characters (items.map fun item => .item (termOf item)) >>= fun items =>
      pure (Reading.call "[" (value.bare :: items))) = _
    rw [reads]
    change Except.ok (Reading.call "[" (value.bare :: items.map Node.bare)) = _
    rw [Reading.call, List.map_cons, bareArgs_unnamed]
    rfl

private theorem read_arguments {characters : CharacterNames} {items : List (Option String × Expr)}
    (tokensOf : Expr → List Token) {termOf : Expr → Term}
    (reads : ∀ a ∈ items, Reading.expr characters (termOf a.2) = .ok a.2.bare) :
    Reading.arguments characters
        ((items.map fun a => (⟨a.1, tokensOf a.2, termOf a.2⟩ : Argument)).map Argument.passed) =
      .ok (Node.bareArgs items) := by
  have bares : Node.bareArgs items = items.map fun a => (a.1, a.2.bare) := by
    induction items with
    | nil => rfl
    | cons a more ih =>
      rw [Node.bareArgs, ih fun a member => reads a (List.mem_cons_of_mem _ member), List.map_cons]
  rw [Reading.arguments_eq_ok, bares, List.map_map, List.forall₂_map_left_iff,
    List.forall₂_map_right_iff, List.forall₂_same]
  rintro ⟨name | name, node⟩ listed
  · exact ⟨rfl, reads _ listed⟩
  · exact ⟨rfl, reads _ listed⟩

private theorem scans_argument {name : Option String} {node : Expr} {tokens : List Token}
    {term : Term} (named : ∀ n ∈ name, isName n = true) (operand : Reread node tokens term) :
    Scans EndsNumber (Printer.named name node.render).toList
        (Argument.written ⟨name, tokens, term⟩) ∧
      '\n' ∉ (Printer.named name node.render).toList := by
  cases name with
  | none => exact ⟨operand.scans, operand.line⟩
  | some n =>
    have identifier := (isName_iff.mp (named n rfl)).1
    have text : (Printer.named (some n) node.render).toList =
        n.toList ++ ' ' :: (['='] ++ ' ' :: node.render.toList) := by
      simp [Printer.named]
    have word := Scans.spacedWord identifier
    rw [String.ofList_toList] at word
    have scans : Scans EndsNumber (n.toList ++ ' ' :: (['='] ++ ' ' :: node.render.toList))
        ([.word n] ++ ([.mark "="] ++ tokens)) :=
      word.append (Scans.equals.append operand.scans.afterSpace fun _ _ => rfl).afterSpace
        fun _ _ => rfl
    have noLine := newline_not_mem identifier
    rw [text]
    exact ⟨scans, by simpa using ⟨noLine, operand.line⟩⟩

private theorem calling (tag : Tag) {callee : Expr} {head : String} {tokens : List Token}
    {term : Term} {items : List (Option String × Expr)}
    (rendered : Node.render (.call tag callee items) =
      head ++ "(" ++ Printer.join ", " (argumentTexts items) ++ ")")
    (begins : Scans.BeginsOperand head.toList) (line : '\n' ∉ head.toList)
    (scans : Scans EndsWord head.toList tokens) (operand : Operand tokens term)
    (read : ∀ characters, Reading.expr characters term = .ok callee.bare)
    (names : ∀ a ∈ items, ∀ name ∈ a.1, isName name = true)
    {tokensOf : Expr → List Token} {termOf : Expr → Term}
    (ordered : Argument.Ordered .positional
      (items.map fun a => ⟨a.1, tokensOf a.2, termOf a.2⟩))
    (operands : ∀ a ∈ items, Reread a.2 (tokensOf a.2) (termOf a.2)) :
    ∃ tokens term, Reread (.call tag callee items) tokens term := by
  have text : (Node.render (.call tag callee items)).toList = head.toList ++
      '(' :: ([',', ' '].intercalate
        (items.map fun a => (Printer.named a.1 a.2.render).toList) ++ [')']) := by
    rw [rendered, String.toList_append, String.toList_append, String.toList_append,
      toList_joinCommas, argumentTexts, List.map_map]
    simp [Function.comp_def]
  have written (a : Option String × Expr) (member : a ∈ items) :=
    scans_argument (names a member) (operands a member)
  have inside : Scans EndsNumber
      ([',', ' '].intercalate (items.map fun a => (Printer.named a.1 a.2.render).toList))
      (commas (items.map fun a => Argument.written ⟨a.1, tokensOf a.2, termOf a.2⟩)) :=
    Scans.commas fun a member => (written a member).1
  have called := operand.call (items.map fun a => ⟨a.1, tokensOf a.2, termOf a.2⟩) ordered
    fun arg listed => by
      obtain ⟨a, member, rfl⟩ := List.mem_map.mp listed
      exact ⟨fun name given => (isName_iff.mp (names a member name given)).2,
        (operands a member).operand⟩
  refine ⟨_, _, ofWord called ?_ ?_ ?_ ?_⟩
  · rw [text]
    exact begins_append begins _
  · have lines : '\n' ∉ [',', ' '].intercalate
        (items.map fun a => (Printer.named a.1 a.2.render).toList) := by
      refine newline_not_mem_commas fun text listed => ?_
      obtain ⟨a, member, rfl⟩ := List.mem_map.mp listed
      exact (written a member).2
    rw [text]
    simpa using ⟨line, lines⟩
  · rw [text, List.map_map]
    refine (scans.append inside.parentheses fun rest _ c member => ?_).mono fun _ _ => trivial
    obtain rfl : '(' = c := Option.some.inj member
    decide
  · intro characters
    have reads := read_arguments tokensOf fun a member => (operands a member).read characters
    rw [Reading.expr]
    change (Reading.arguments _ _ >>= fun args => Reading.expr _ term >>= fun callee =>
      pure (Node.call 0 callee args)) = _
    rw [reads, read]
    rfl

private theorem ordered_args (tokensOf : Expr → List Token) (termOf : Expr → Term)
    (unnamed : List Expr) (named : List (String × Expr)) :
    Argument.Ordered .positional ((unnamedArgs unnamed ++ namedArgs named).map
      fun a => ⟨a.1, tokensOf a.2, termOf a.2⟩) := by
  have later (phase : ArgumentPhase) (noMappings : phase ≠ .mappings) :
      Argument.Ordered phase ((namedArgs named).map fun a => ⟨a.1, tokensOf a.2, termOf a.2⟩) := by
    induction named generalizing phase with
    | nil => trivial
    | cons a more ih => exact ⟨noMappings, fun none_ => (Option.some_ne_none _ none_).elim,
        ih .named (by decide)⟩
  induction unnamed with
  | nil => exact later .positional (by decide)
  | cons a more ih => exact ⟨by decide, fun _ => rfl, ih⟩

end Reread

namespace Rereadable

theorem isPairlist {node : Expr} (rereadable : Rereadable node) : node.isPairlist = false := by
  cases rereadable <;> rfl

private theorem no_pairlist_first {items : List (Option String × Expr)}
    (rereadable : ∀ a ∈ items, Rereadable a.2) :
    ((items.map (·.2)).head?.map Node.isPairlist).getD false = false := by
  cases items with
  | nil => rfl
  | cons a more => exact (rereadable a List.mem_cons_self).isPairlist

private theorem mem_args {unnamed : List Expr} {named : List (String × Expr)}
    {property : Expr → Prop}
    (first : ∀ a ∈ unnamed, property a) (second : ∀ a ∈ named, property a.2) :
    ∀ a ∈ unnamedArgs unnamed ++ namedArgs named, property a.2 := by
  intro a member
  rcases List.mem_append.mp member with listed | listed
  · obtain ⟨item, given, rfl⟩ := List.mem_map.mp listed
    exact first item given
  · obtain ⟨item, given, rfl⟩ := List.mem_map.mp listed
    exact second item given

private theorem names_of_args {unnamed : List Expr} {named : List (String × Expr)}
    (names : ∀ a ∈ named, isName a.1 = true) :
    ∀ a ∈ unnamedArgs unnamed ++ namedArgs named, ∀ name ∈ a.1, isName name = true := by
  intro a member name given
  rcases List.mem_append.mp member with listed | listed
  · obtain ⟨item, -, rfl⟩ := List.mem_map.mp listed
    cases given
  · obtain ⟨item, named, rfl⟩ := List.mem_map.mp listed
    obtain rfl : item.1 = name := Option.some.inj given
    exact names item named

/-- Every tree that can be read back has a line that is an operand of the source language and is
read as the tree. -/
theorem reread {node : Expr} (rereadable : Rereadable node) :
    ∃ tokens term, Reread node tokens term := by
  -- The tokens and the term of a tree as functions of it, so that lists of parts can be mapped.
  have each (node : Expr) (found : ∃ tokens term, Reread node tokens term) :
      ∃ tokens term, Reread node tokens term := found
  choose! tokensOf termOf each using each
  induction rereadable with
  | name tag named => exact ⟨_, _, Reread.name tag named⟩
  | truth tag value =>
    obtain ⟨text, reread⟩ := Reread.truth tag value
    exact ⟨_, _, reread⟩
  | nothing tag => exact ⟨_, _, Reread.nothing tag⟩
  | number tag short => exact ⟨_, _, Reread.number tag short⟩
  | operation tag mark op _ _ first second =>
    exact Reread.operation tag mark op (each _ first) (each _ second)
  | unary tag mark op _ operand => exact Reread.unary tag mark op (each _ operand)
  | chain tag mark many _ _ first operands =>
    exact Reread.chain tag mark many (each _ first) fun link listed =>
      each link.2.2 (operands link listed)
  | @call tag callee other unnamed named names head unnamedOnes namedOnes inner first second =>
    have operands := mem_args (fun a listed => each a (first a listed))
      (fun a listed => each a.2 (second a listed))
    have ordered := Reread.ordered_args tokensOf termOf unnamed named
    have inner := each _ inner
    cases symbol : callee.symbolName? with
    | none =>
      have text : ("(" ++ callee.render ++ ")").toList =
          '(' :: (callee.render.toList ++ [')']) := by
        simp
      refine Reread.calling tag (Node.render_call_other tag symbol _) ?_ ?_ ?_
        (.group inner.operand.whole (.operand inner.operand.begins)) ?_ (names_of_args names)
        ordered operands
      · rw [text]
        exact ⟨'(', rfl, Or.inr rfl⟩
      · rw [text]
        simpa using inner.line
      · rw [text]
        exact inner.scans.parentheses.mono fun _ _ => trivial
      · intro characters
        rw [Reading.expr]
        exact inner.read characters
    | some name =>
      cases head with
      | @name mark text isNamed =>
        have plain : text ≠ "compare" := fun same => other (congrArg some same)
        have rendered := Node.render_call_symbol (not_mem_formNames isNamed plain) tag mark
          (no_pairlist_first (mem_args unnamedOnes namedOnes))
        have word := Reread.name mark isNamed
        exact Reread.calling tag rendered word.begins word.line
          (word.word fun _ _ same => by cases same) word.operand word.read (names_of_args names)
          ordered operands
      | _ => cases symbol
  | member tag mark tag' named noNumber _ value =>
    exact ⟨_, _, Reread.member tag mark tag' named noNumber (each _ value)⟩
  | subscript tag mark some_ _ _ value items =>
    exact Reread.subscript tag mark some_ (each _ value) fun item listed =>
      each item (items item listed)

end Rereadable

end TreePass
