import TreePass.Proofs.Printing.Forms
import TreePass.Proofs.Source.Steps

/-!
The trees of expressions that are made of names, constants, whole numbers, operators, conditionals,
function literals, calls, members and subscripts, and how they are printed.
-/

set_option autoImplicit false
set_option relaxedAutoImplicit false

namespace TreePass

open Source Printer

/-- What is taken of a value: a member, or what stands under a subscript. -/
inductive Access
  | member (name : String) (named : isName name = true)
  | subscript (items : List Expr) (some_ : items ≠ [])

namespace Access

def symbol : Access → String
  | member _ _ => "."
  | subscript _ _ => "["

def args : Access → List Expr
  | member name _ => [Reading.atomic (.str name)]
  | subscript items _ => items

def items : Access → List Expr
  | member _ _ => []
  | subscript items _ => items

def of (access : Access) (value : Expr) : Expr := Reading.call access.symbol (value :: access.args)

/-- How an access is printed behind its value. -/
def text : Access → String
  | member name _ => "." ++ name
  | subscript items _ => "[" ++ join ", " (items.map Node.render) ++ "]"

theorem render_of (access : Access) (value : Expr) :
    (access.of value).render = value.render ++ access.text := by
  cases access with
  | member name named =>
    have rendered := Node.render_member 0 0 0 value name
    rw [String.append_assoc] at rendered
    exact rendered
  | subscript items some_ =>
    have rendered := Node.render_subscript 0 0 value some_
    simp only [String.append_assoc] at rendered
    rw [text, String.append_assoc]
    exact rendered

end Access

/-- The trees of such expressions, in which an access may be taken of the given values only. -/
inductive Legible (base : Expr → Prop) : Expr → Prop
  | name {text : String} (named : isName text = true) (other : text ∉ ["compare", "function"]) :
    Legible base (Reading.symbol text)
  | truth (value : Bool) : Legible base (Reading.atomic (.bool value))
  | nothing : Legible base (Reading.atomic .none)
  | number (n : Nat) : Legible base (Reading.atomic (.int n))
  | operation (op : Operator) {a b : Expr} :
    Legible base a → Legible base b → Legible base (Reading.call op.text [a, b])
  | unary (op : UnaryOp) {a : Expr} : Legible base a → Legible base (Reading.call op.text [a])
  | chain {first : Expr} {links : List (CompareOp × Expr)} (many : 2 ≤ links.length) :
    Legible base first → (∀ link ∈ links, Legible base link.2) →
    Legible base (Reading.call "compare" (first :: Reading.compareArgs links))
  | call {callee : Expr} {args : List (Option String × Expr)}
    (names : ∀ a ∈ args, ∀ name ∈ a.1, isName name = true) :
    Legible base callee → (∀ a ∈ args, Legible base a.2) → Legible base (.call 0 callee args)
  | access {value : Expr} (taken : Access) (allowed : base value) :
    Legible base value → (∀ item ∈ taken.items, Legible base item) → Legible base (taken.of value)
  | conditional {test body other : Expr} :
    Legible base test → Legible base body → Legible base other →
    Legible base (Reading.call "if" [test, body, other])
  | function {params : List (String × Option Expr)} {body : Expr}
    (names : ∀ p ∈ params, isName p.1 = true) :
    (∀ p ∈ params, ∀ default ∈ p.2, Legible base default) → Legible base body →
    Legible base (Reading.call "function" [.pairlist 0 params, body])

namespace Text

private theorem Ranges.mem_eq_false {first second : Ranges}
    (apart : (first.all fun range => second.all fun other =>
      range.2.blt other.1 || other.2.blt range.1) = true)
    {c : Char} (member : first.mem c = true) : second.mem c = false := by
  obtain ⟨range, listed, within⟩ := List.any_eq_true.mp member
  rw [Bool.and_eq_true, decide_eq_true_eq, decide_eq_true_eq] at within
  refine List.any_eq_false.mpr fun other listed' => ?_
  rw [Bool.and_eq_true, decide_eq_true_eq, decide_eq_true_eq]
  have either := List.all_eq_true.mp (List.all_eq_true.mp apart range listed) other listed'
  rw [Bool.or_eq_true, Nat.blt_eq, Nat.blt_eq] at either
  omega

theorem Blank.isBlank_of_isContinue {c : Char} (continues : Identifier.isContinue c = true) :
    isBlank c = false := by
  by_contra blank
  rw [Bool.not_eq_false] at blank
  unfold Identifier.isContinue at continues
  by_cases low : c.toNat < 0x80
  · have letters : ∀ code ∈ List.range 0x80, (Char.ofNat code).isAlphanum = true ∨
        Char.ofNat code = '_' → isBlank (Char.ofNat code) = false := by
      decide +kernel
    rw [if_pos low, Bool.or_eq_true, beq_iff_eq] at continues
    have outside := letters c.toNat (List.mem_range.mpr low)
    rw [Char.ofNat_toNat] at outside
    rw [outside continues] at blank
    cases blank
  · have noStart : Identifier.startRanges.mem c = false :=
      Ranges.mem_eq_false (by decide +kernel) blank
    have noContinue : Identifier.continueRanges.mem c = false :=
      Ranges.mem_eq_false (by decide +kernel) blank
    rw [if_neg low, noStart, noContinue] at continues
    cases continues

end Text

def Solid (text : List Char) : Prop := ∃ c ∈ text.getLast?, Text.Blank.isBlank c = false

namespace Solid

theorem append {text : List Char} (solid : Solid text) (before : List Char) :
    Solid (before ++ text) := by
  obtain ⟨c, last, ink⟩ := solid
  exact ⟨c, by simp [List.getLast?_append, Option.mem_def.mp last], ink⟩

private theorem of_forall {text : List Char} (some_ : text ≠ [])
    (all : ∀ c ∈ text, Text.Blank.isBlank c = false) : Solid text :=
  ⟨_, List.getLast?_eq_some_getLast some_, all _ (List.getLast_mem some_)⟩

theorem word {text : List Char} (identifier : Text.Identifier.isIdentifier text = true) :
    Solid text := by
  refine of_forall ?_ fun c member => Text.Blank.isBlank_of_isContinue
    (Text.Identifier.isContinue_of_isIdentifier identifier c member)
  rintro rfl
  cases identifier

theorem digits (n : Nat) : Solid (digits n) :=
  of_forall (digits_ne_nil n) fun _ member =>
    forall_isDigit (p := fun c => Text.Blank.isBlank c = false) (by decide)
      (isDigit_of_mem_digits member)

theorem trimRight {text : String} (solid : Solid text.toList) : trimRight text = text := by
  obtain ⟨c, last, ink⟩ := solid
  rw [Printer.trimRight]
  cases reversed : text.toList.reverse with
  | nil =>
    rw [List.reverse_eq_nil_iff.mp reversed] at last
    cases last
  | cons d rest =>
    have same : d = c := by
      rw [← List.head?_reverse, reversed] at last
      exact Option.some.inj last
    rw [same, List.dropWhile_cons, ink, if_neg Bool.false_ne_true, ← same, ← reversed,
      List.reverse_reverse, String.ofList_toList]

theorem parenthesis : Solid [')'] := ⟨')', rfl, by decide⟩

end Solid

def calleeText (callee : Expr) : String :=
  callee.symbolName?.getD ("(" ++ callee.render ++ ")")

namespace Source.Reading

theorem render_operation (op : Operator) (a b : Expr) :
    (call op.text [a, b]).render =
      "(" ++ (a.render ++ " " ++ op.text ++ " " ++ b.render) ++ ")" :=
  Node.render_operation 0 0 op a b

theorem render_unary (op : UnaryOp) (a : Expr) :
    (call op.text [a]).render = "(" ++ (op.sign ++ a.render) ++ ")" :=
  Node.render_unary 0 0 op a

theorem render_conditional (test body other : Expr) :
    (call "if" [test, body, other]).render =
      "if (" ++ test.render ++ ") " ++ body.render ++ " else " ++ other.render :=
  Node.render_conditional 0 0 test body other

private theorem map_compareArgs (links : List (CompareOp × Expr)) :
    (compareArgs links).map (none, ·) =
      chainArgs (links.map fun link => (link.1, 0, link.2)) := by
  induction links with
  | nil => rfl
  | cons link rest ih =>
    rw [compareArgs, List.map_cons, List.map_cons, ih]
    rfl

theorem render_chain (first : Expr) {links : List (CompareOp × Expr)} (some_ : links ≠ []) :
    (call "compare" (first :: compareArgs links)).render =
      "(" ++ join " " (first.render :: links.map fun link => link.1.text ++ " " ++ link.2.render) ++
        ")" := by
  have rendered := @Node.render_chain 0 0 first (links.map fun link => (link.1, 0, link.2))
    (by simpa using some_)
  rw [linkTexts, List.map_map, ← map_compareArgs] at rendered
  exact rendered

theorem render_function (params : List (String × Option Expr)) {body : Expr}
    (solid : Solid body.render.toList) :
    (call "function" [.pairlist 0 params, body]).render =
      "function(" ++ join ", " (renderParams params) ++ ") " ++ body.render := by
  change trimRight ("function(" ++ join ", " (renderParams params) ++ ") " ++ body.render) = _
  refine Solid.trimRight ?_
  rw [String.toList_append]
  exact solid.append _

end Source.Reading

theorem Access.solid (taken : Access) : Solid taken.text.toList := by
  cases taken with
  | member name named =>
    rw [Access.text, String.toList_append]
    exact (Solid.word (isName_iff.mp named).1).append _
  | subscript items some_ =>
    rw [Access.text, String.toList_append]
    exact Solid.append ⟨']', rfl, by decide⟩ _

namespace Legible

variable {base : Expr → Prop} {node : Expr}

theorem isPairlist (legible : Legible base node) : node.isPairlist = false := by
  cases legible <;> rfl

theorem of_symbolName? (legible : Legible base node) {text : String}
    (symbol : node.symbolName? = some text) :
    node = Reading.symbol text ∧ isName text = true ∧ text ∉ ["compare", "function"] := by
  cases legible with
  | name named other =>
    obtain rfl := Option.some.inj symbol
    exact ⟨rfl, named, other⟩
  | _ => cases symbol

theorem render_call {callee : Expr} {args : List (Option String × Expr)}
    (legible : Legible base callee) (legibles : ∀ a ∈ args, Legible base a.2) :
    Node.render (.call 0 callee args) =
      calleeText callee ++ "(" ++ join ", " (argumentTexts args) ++ ")" := by
  cases symbol : callee.symbolName? with
  | none =>
    rw [Node.render_call_other 0 symbol, calleeText, symbol]
    rfl
  | some text =>
    obtain ⟨rfl, named, other⟩ := legible.of_symbolName? symbol
    have noList : ((args.map (·.2)).head?.map Node.isPairlist).getD false = false := by
      cases args with
      | nil => rfl
      | cons a rest => exact (legibles a List.mem_cons_self).isPairlist
    have noForm := not_mem_formNames named fun same => other (by simp [same])
    exact Node.render_call_symbol noForm 0 0 noList

theorem solid (legible : Legible base node) : Solid node.render.toList := by
  have closed (text : String) : Solid (text ++ ")").toList := by
    rw [String.toList_append]
    exact Solid.parenthesis.append _
  induction legible with
  | name named _ => exact Solid.word (isName_iff.mp named).1
  | truth value => cases value <;> exact Solid.word (by decide)
  | nothing => exact Solid.word (by decide)
  | number n =>
    change Solid (toString n).toList
    rw [toList_toString]
    exact Solid.digits n
  | operation op =>
    rw [Reading.render_operation]
    exact closed _
  | unary op =>
    rw [Reading.render_unary]
    exact closed _
  | chain many =>
    rw [Reading.render_chain _ (by rintro rfl; simp at many)]
    exact closed _
  | call names legible legibles =>
    rw [render_call legible legibles]
    exact closed _
  | access taken =>
    rw [taken.render_of, String.toList_append]
    exact taken.solid.append _
  | conditional _ _ _ _ _ last =>
    rw [Reading.render_conditional, String.toList_append]
    exact last.append _
  | function _ _ _ _ last =>
    rw [Reading.render_function _ last, String.toList_append]
    exact last.append _

end Legible

namespace Source

def Index.terms : Index → List Term
  | .item value => [value]
  | .slice lower upper step => lower.toList ++ upper.toList ++ step.toList

/-- The expressions of the source language that are made of names, constants, whole numbers,
operators, conditionals, function literals, calls, members and subscripts. -/
inductive Term.Plain : Term → Prop
  | name {text : String} (named : isName text = true) (other : text ∉ ["compare", "function"]) :
    Plain (.name text)
  | constant {text : String} (constant : text ∈ Term.constants) : Plain (.name text)
  | integer {text : String} {n : Nat} (value : Literal.integer? text = some (n : Int)) :
    Plain (.integer text)
  | binary (op : BinaryOp) {left right : Term} :
    Plain left → Plain right → Plain (.binary op left right)
  | unary (op : UnaryOp) {operand : Term} : Plain operand → Plain (.unary op operand)
  | boolean (op : BooleanOp) {left right : Term} :
    Plain left → Plain right → Plain (.boolean op left right)
  | comparison {left : Term} {rest : List (CompareOp × Term)} (some_ : rest ≠ []) :
    Plain left → (∀ link ∈ rest, Plain link.2) → Plain (.comparison left rest)
  | call {callee : Term} {args : List (Passing × Term)}
    (names : ∀ a ∈ args, ∀ name, a.1 = .keyword name → isName name = true) :
    Plain callee → (∀ a ∈ args, Plain a.2) → Plain (.call callee args)
  | member {value : Term} {name : String} (named : isName name = true) :
    Plain value → Plain (.member value name)
  | subscript {value : Term} {items : List Index} (some_ : items ≠ []) :
    Plain value → (∀ item ∈ items, ∀ term ∈ item.terms, Plain term) →
    Plain (.subscript value items)
  | lambda {params : List Param} {body : Term} (names : ∀ p ∈ params, isName p.name = true) :
    (∀ p ∈ params, ∀ default ∈ p.default?, Plain default) → Plain body →
    Plain (.lambda params body)
  | conditional {body test otherwise : Term} :
    Plain body → Plain test → Plain otherwise → Plain (.conditional body test otherwise)
  | group {inner : Term} : Plain inner → Plain (.group inner)

namespace Reading

variable {characters : CharacterNames} {base : Expr → Prop}

private theorem bound_legible {term : Option Term} {node : Expr}
    (read : bound characters term = .ok node)
    (each : ∀ t ∈ term, ∀ node, expr characters t = .ok node → Legible base node) :
    Legible base node := by
  cases term with
  | none =>
    obtain rfl := Except.ok.inj read
    exact .nothing
  | some t => exact each t rfl node read

private theorem item_legible {index : Index} {node : Expr} (read : item characters index = .ok node)
    (each : ∀ t ∈ index.terms, ∀ node, expr characters t = .ok node → Legible base node) :
    Legible base node := by
  cases index with
  | item term => exact each term (List.mem_singleton_self term) node read
  | slice lower upper step =>
    simp only [item, bind_eq_ok, pure_eq_ok] at read
    obtain ⟨first, readLower, second, readUpper, third, readStep, rfl⟩ := read
    have first := bound_legible readLower fun t member =>
      each t (by simp [Index.terms, Option.mem_def.mp member])
    have second := bound_legible readUpper fun t member =>
      each t (by simp [Index.terms, Option.mem_def.mp member])
    have third := bound_legible readStep fun t member =>
      each t (by simp [Index.terms, Option.mem_def.mp member])
    refine .call (by simp) (.name (by decide) (by decide)) ?_
    simp [first, second, third]

theorem expr_legible {term : Term} (plain : term.Plain) {node : Expr}
    (read : expr characters term = .ok node) : Legible (fun _ => True) node := by
  induction plain generalizing node with
  | @name text named other =>
    obtain rfl := Except.ok.inj read
    rw [nameExpr_of_isName named]
    exact .name named other
  | constant constant =>
    obtain rfl := Except.ok.inj read
    simp only [Term.constants, List.mem_cons, List.not_mem_nil, or_false] at constant
    rcases constant with rfl | rfl | rfl
    · exact .truth true
    · exact .truth false
    · exact .nothing
  | @integer text n value =>
    rw [expr, value] at read
    obtain rfl := Except.ok.inj read
    exact .number n
  | binary op _ _ first second =>
    simp only [expr, bind_eq_ok, pure_eq_ok] at read
    obtain ⟨a, readFirst, b, readSecond, rfl⟩ := read
    exact .operation (.binary op) (first readFirst) (second readSecond)
  | unary op _ inner =>
    simp only [expr, bind_eq_ok, pure_eq_ok] at read
    obtain ⟨a, readInner, rfl⟩ := read
    exact .unary op (inner readInner)
  | boolean op _ _ first second =>
    simp only [expr, bind_eq_ok, pure_eq_ok] at read
    obtain ⟨a, readFirst, b, readSecond, rfl⟩ := read
    exact .operation (.boolean op) (first readFirst) (second readSecond)
  | comparison some_ _ _ first links =>
    simp only [expr, bind_eq_ok, pure_eq_ok] at read
    obtain ⟨left, readFirst, rest, readRest, rfl⟩ := read
    have steps := operands_eq_ok.mp readRest
    have long := steps.length_eq.symm
    have legibles : ∀ link ∈ rest, Legible (fun _ => True) link.2 := by
      intro link member
      obtain ⟨source, given, -, readLink⟩ := exists_of_forall₂ steps member
      exact links source given readLink
    rcases rest with _ | ⟨⟨op, right⟩, _ | ⟨next, more⟩⟩
    · exact absurd (List.length_eq_zero_iff.mp long.symm) some_
    · exact .operation (.comparison op) (first readFirst) (legibles _ List.mem_cons_self)
    · exact .chain (by simp) (first readFirst) legibles
  | call names _ _ callee args =>
    simp only [expr, bind_eq_ok, pure_eq_ok] at read
    obtain ⟨values, readArgs, head, readCallee, rfl⟩ := read
    have steps := arguments_eq_ok.mp readArgs
    refine .call (fun a member name given => ?_) (callee readCallee) fun a member => ?_
    · obtain ⟨⟨passing, term⟩, listed, passed, -⟩ := exists_of_forall₂ steps member
      obtain rfl : passing = .keyword name := by
        cases passing with
        | keyword other =>
          rw [← Option.some.inj passed] at given
          rw [Option.some.inj given]
        | positional =>
          rw [← Option.some.inj passed] at given
          cases given
        | starred | doubleStarred => cases passed
      exact names _ listed name rfl
    · obtain ⟨source, listed, -, readArg⟩ := exists_of_forall₂ steps member
      exact args source listed readArg
  | @member value name named _ inner =>
    simp only [expr, bind_eq_ok, pure_eq_ok] at read
    obtain ⟨a, readInner, rfl⟩ := read
    exact .access (.member name named) trivial (inner readInner) (by simp [Access.items])
  | subscript some_ _ _ inner items =>
    simp only [expr, bind_eq_ok, pure_eq_ok] at read
    obtain ⟨a, readInner, others, readItems, rfl⟩ := read
    have steps := indices_eq_ok.mp readItems
    have others_ne : others ≠ [] := by
      rintro rfl
      exact some_ (List.forall₂_nil_right_iff.mp steps)
    refine .access (.subscript others others_ne) trivial (inner readInner) fun item member => ?_
    obtain ⟨index, listed, readItem⟩ := exists_of_forall₂ steps member
    exact item_legible readItem fun t inside _ => items index listed t inside
  | lambda names _ _ defaults inner =>
    simp only [expr, bind_eq_ok, pure_eq_ok] at read
    obtain ⟨list, readParams, body, readBody, rfl⟩ := read
    have steps := parameters_eq_ok.mp readParams
    refine .function (fun p member => ?_) (fun p member default given => ?_) (inner readBody)
    · obtain ⟨param, listed, same, -⟩ := exists_of_forall₂ steps member
      exact same ▸ names param listed
    · obtain ⟨param, listed, -, values⟩ := exists_of_forall₂ steps member
      rw [Option.mem_def.mp given] at values
      obtain ⟨term, inside, readDefault⟩ : ∃ term ∈ param.default?,
          expr characters term = .ok default := by
        generalize param.default? = default? at values
        cases values with
        | some read => exact ⟨_, rfl, read⟩
      exact defaults param listed term inside readDefault
  | conditional _ _ _ body test other =>
    simp only [expr, bind_eq_ok, pure_eq_ok] at read
    obtain ⟨a, readTest, b, readBody, c, readOther, rfl⟩ := read
    exact .conditional (test readTest) (body readBody) (other readOther)
  | group _ inner => exact inner read

end Reading

end Source

end TreePass
