import TreePass.Proofs.Printing.Words
import TreePass.Node.Printer

/-!
How each form of expression is printed, in terms of how its parts are.
-/

set_option autoImplicit false
set_option relaxedAutoImplicit false

namespace TreePass

open Source Printer

theorem renderArgs_eq (args : List (Option String × Expr)) :
    renderArgs args = args.map fun a => a.2.render := by
  induction args with
  | nil => rfl
  | cons a rest ih =>
    obtain ⟨name, node⟩ := a
    rw [renderArgs, ih]
    rfl

def unnamedArgs (items : List Expr) : List (Option String × Expr) := items.map (none, ·)

/-- Arguments with their names, as they stand between the parentheses of a call. -/
def argumentTexts (args : List (Option String × Expr)) : List String :=
  args.map fun a => named a.1 a.2.render

theorem zipWith_named (args : List (Option String × Expr)) :
    List.zipWith named (args.map (·.1)) (renderArgs args) = argumentTexts args := by
  rw [renderArgs_eq, argumentTexts]
  induction args with
  | nil => rfl
  | cons a rest ih => exact congrArg (_ :: ·) ih

def parameterText (param : String × Option Expr) : String :=
  match param.2 with
  | none => param.1
  | some default => param.1 ++ " = " ++ default.render

theorem renderParams_eq (params : List (String × Option Expr)) :
    renderParams params = params.map parameterText := by
  induction params with
  | nil => rfl
  | cons p rest ih =>
    obtain ⟨name, default | default⟩ := p
    · rw [renderParams, ih]
      rfl
    · rw [renderParams, ih]
      rfl

theorem toList_joinSpaces (first : String) (texts : List String) :
    (join " " (first :: texts)).toList =
      first.toList ++ texts.flatMap fun text => ' ' :: text.toList := by
  induction texts generalizing first with
  | nil => simp [join]
  | cons second more ih =>
    have later := ih second
    rw [join] at later ⊢
    rw [String.intercalate_cons_cons, String.toList_append, String.toList_append, later,
      List.flatMap_cons]
    simp

theorem toList_joinCommas (texts : List String) :
    (join ", " texts).toList = [',', ' '].intercalate (texts.map String.toList) :=
  String.toList_intercalate

inductive Operator
  | binary (op : BinaryOp)
  | boolean (op : BooleanOp)
  | comparison (op : CompareOp)

def Operator.text : Operator → String
  | binary op => op.text
  | boolean op => op.text
  | comparison op => op.text

theorem Node.render_operation (tag mark : Tag) (op : Operator) (a b : Expr) :
    render (.call tag (.symbol mark op.text) [(none, a), (none, b)]) =
      "(" ++ (a.render ++ " " ++ op.text ++ " " ++ b.render) ++ ")" := by
  have flat : render (.call tag (.symbol mark op.text) [(none, a), (none, b)]) =
      "(" ++ a.render ++ " " ++ op.text ++ " " ++ b.render ++ ")" := by
    rcases op with op | op | op <;> cases op <;> rfl
  rw [flat]
  simp only [String.append_assoc]

/-- What is printed before the operand of an operator. -/
def Source.UnaryOp.sign : UnaryOp → String
  | .minus => "-"
  | .plus => "+"
  | .bitInvert => "~"
  | .not => "not "

def chainArgs : List (CompareOp × Tag × Expr) → List (Option String × Expr)
  | [] => []
  | (op, tag, operand) :: rest =>
    (none, .atomic tag (.str op.text)) :: (none, operand) :: chainArgs rest

private theorem unnamed_chainArgs (links : List (CompareOp × Tag × Expr)) :
    ((chainArgs links).map (·.1)).all Option.isNone = true := by
  induction links with
  | nil => rfl
  | cons link rest ih => exact ih

/-- The comparisons of a chain, as they stand after its first operand. -/
def linkTexts (links : List (CompareOp × Tag × Expr)) : List String :=
  links.map fun link => link.1.text ++ " " ++ link.2.2.render

private theorem chainTail?_links (links : List (CompareOp × Tag × Expr)) :
    chainTail? ((chainArgs links).map (·.2)) (renderArgs (chainArgs links)) =
      some (linkTexts links) := by
  induction links with
  | nil => rfl
  | cons link rest ih =>
    obtain ⟨op, tag, operand⟩ := link
    change (chainTail? ((chainArgs rest).map (·.2)) (renderArgs (chainArgs rest))).bind
      (fun texts => some ((op.text ++ " " ++ operand.render) :: texts)) = _
    rw [ih]
    rfl

private theorem chain?_links (first : Expr) (text : String) {links : List (CompareOp × Tag × Expr)}
    (some_ : links ≠ []) :
    chain? (first :: (chainArgs links).map (·.2)) (text :: renderArgs (chainArgs links)) =
      some ("(" ++ join " " (text :: linkTexts links) ++ ")") := by
  cases links with
  | nil => exact absurd rfl some_
  | cons link rest =>
    have tail := chainTail?_links (link :: rest)
    have whole : chain? (first :: (chainArgs (link :: rest)).map (·.2))
        (text :: renderArgs (chainArgs (link :: rest))) =
        (chainTail? ((chainArgs (link :: rest)).map (·.2))
          (renderArgs (chainArgs (link :: rest)))).map
          fun texts => "(" ++ join " " (text :: texts) ++ ")" := by
      obtain ⟨op, tag, operand⟩ := link
      exact Option.map_eq_bind.symm
    rw [whole, tail]
    rfl

theorem callText_of_operator {name text : String} {names : List (Option String)}
    {args : List Expr} {texts : List String} (calleeText : String)
    (noForm : formText? name args texts = none) (unnamed : names.all Option.isNone = true)
    (operator : operatorText? name args texts = some text) :
    callText (some name) calleeText names args texts = text := by
  simp [callText, noForm, unnamed, operator]

/-- Callees that the printer does not write before parentheses. -/
def formNames : List String :=
  ["\x7b", "if", "for", "while", "=", "<-", ".", "[", "compare"] ++ infixOperators ++
    prefixTexts.map Prod.fst

private theorem formText?_eq_none {name : String} (other : name ∉ formNames) {args : List Expr}
    (noList : (args.head?.map Node.isPairlist).getD false = false) (texts : List String) :
    formText? name args texts = none := by
  have isOther : name ≠ "\x7b" ∧ name ≠ "if" ∧ name ≠ "for" ∧ name ≠ "while" := by
    refine ⟨?_, ?_, ?_, ?_⟩ <;> rintro rfl <;> exact other (by decide)
  unfold formText?
  rw [if_neg isOther.1, noList]
  split
  · rfl
  · exact absurd rfl isOther.2.1
  · exact absurd rfl isOther.2.1
  · exact absurd rfl isOther.2.2.1
  · exact absurd rfl isOther.2.2.2
  · rfl

private theorem operatorText?_eq_none {name : String} (other : name ∉ formNames) (args : List Expr)
    (texts : List String) : operatorText? name args texts = none := by
  have isOther : name ∉ assignments ∧ name ≠ "." ∧ name ≠ "[" ∧ name ∉ infixOperators ∧
      name ≠ "compare" := by
    refine ⟨?_, ?_, ?_, ?_, ?_⟩
    · intro member
      simp only [assignments, List.mem_cons, List.not_mem_nil, or_false] at member
      rcases member with rfl | rfl <;> exact other (by decide)
    · rintro rfl
      exact other (by decide)
    · rintro rfl
      exact other (by decide)
    · intro member
      exact other (List.mem_append_left _ (List.mem_append_right _ member))
    · rintro rfl
      exact other (by decide)
  have noSign : prefixTexts.lookup name = none := by
    rw [List.lookup_eq_none_iff]
    intro entry member
    rw [bne_iff_ne]
    rintro rfl
    exact other (List.mem_append_right _ (List.mem_map_of_mem member))
  obtain ⟨noAssignment, noDot, noBracket, noInfix, noChain⟩ := isOther
  have assigns : assignments.contains name = false := by simpa using noAssignment
  have isInfix : infixOperators.contains name = false := by simpa using noInfix
  unfold operatorText?
  split
  · rw [assigns, isInfix]
    simp [noDot, noBracket]
  · rw [if_neg noBracket, noSign, if_neg noChain]
  · rfl

theorem not_mem_formNames {name : String} (named : isName name = true)
    (other : name ≠ "compare") : name ∉ formNames := by
  intro member
  have all : ∀ form ∈ formNames, form = "compare" ∨ isName form = false := by decide
  rcases all name member with rfl | unnamed
  · exact other rfl
  · rw [named] at unnamed
    cases unnamed

namespace Node

theorem render_unary (tag mark : Tag) (op : UnaryOp) (a : Expr) :
    render (.call tag (.symbol mark op.text) [(none, a)]) =
      "(" ++ (op.sign ++ a.render) ++ ")" := by
  cases op <;> rfl

theorem render_chain (tag mark : Tag) (first : Expr) {links : List (CompareOp × Tag × Expr)}
    (some_ : links ≠ []) :
    render (.call tag (.symbol mark "compare") ((none, first) :: chainArgs links)) =
      "(" ++ join " " (first.render :: linkTexts links) ++ ")" := by
  have names : (((none, first) :: chainArgs links).map (·.1)).all Option.isNone = true :=
    unnamed_chainArgs links
  have chain := chain?_links first first.render some_
  cases links with
  | nil => exact absurd rfl some_
  | cons link rest => exact callText_of_operator _ rfl names chain

theorem render_call_symbol {name : String} (other : name ∉ formNames) (tag mark : Tag)
    {args : List (Option String × Expr)}
    (noList : ((args.map (·.2)).head?.map Node.isPairlist).getD false = false) :
    render (.call tag (.symbol mark name) args) =
      name ++ "(" ++ join ", " (argumentTexts args) ++ ")" := by
  rw [render, symbolName?, callText, zipWith_named]
  simp [formText?_eq_none other noList, operatorText?_eq_none other]

theorem render_call_other (tag : Tag) {callee : Expr} (unnamed : callee.symbolName? = none)
    (args : List (Option String × Expr)) :
    render (.call tag callee args) =
      "(" ++ callee.render ++ ")" ++ "(" ++ join ", " (argumentTexts args) ++ ")" := by
  rw [render, callText, zipWith_named, unnamed]
  simp

theorem render_member (tag mark tag' : Tag) (value : Expr) (name : String) :
    render (.call tag (.symbol mark ".") [(none, value), (none, .atomic tag' (.str name))]) =
      value.render ++ "." ++ name := rfl

theorem render_subscript (tag mark : Tag) (value : Expr) {items : List Expr} (some_ : items ≠ []) :
    render (.call tag (.symbol mark "[") ((none, value) :: unnamedArgs items)) =
      value.render ++ "[" ++ join ", " (items.map render) ++ "]" := by
  have texts : renderArgs (unnamedArgs items) = items.map render := by
    rw [renderArgs_eq, unnamedArgs, List.map_map]
    rfl
  have names : (((none, value) :: unnamedArgs items).map (·.1)).all Option.isNone = true := by
    simp [unnamedArgs]
  have operator : operatorText? "[" (((none, value) :: unnamedArgs items).map (·.2))
      (value.render :: items.map render) =
      some (value.render ++ "[" ++ join ", " (items.map render) ++ "]") := by
    cases items with
    | nil => exact absurd rfl some_
    | cons item rest =>
      cases rest with
      | nil => rfl
      | cons next more => rfl
  rw [render, renderArgs, texts]
  exact callText_of_operator _ rfl names operator

theorem render_conditional (tag mark : Tag) (test body other : Expr) :
    render (.call tag (.symbol mark "if") [(none, test), (none, body), (none, other)]) =
      "if (" ++ test.render ++ ") " ++ body.render ++ " else " ++ other.render := rfl

end Node

end TreePass
