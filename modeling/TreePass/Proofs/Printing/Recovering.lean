import TreePass.Proofs.Printing.Decoding

/-!
The decoder gives every settled tree back from its line: one lemma for each form, whatever comes
behind it on the line.
-/

set_option autoImplicit false
set_option relaxedAutoImplicit false

namespace TreePass.Line

open Source Source.Lexer Printer

/-- How the line of an expression begins: with a parenthesis, or with a word other than `not`. -/
inductive Opens : List Char → Prop
  | parenthesis (more : List Char) : Opens ('(' :: more)
  | word {word more : List Char} (some_ : word ≠ []) (all : word.all mayContinue = true)
    (other : word ≠ "not".toList) (ends : Before endsWord more) : Opens (word ++ more)

namespace Opens

variable {line : List Char}

theorem append (opens : Opens line) {rest : List Char} (ends : Before endsWord rest) :
    Opens (line ++ rest) := by
  cases opens with
  | parenthesis more => exact .parenthesis _
  | @word word more some_ all other ends' =>
    rw [List.append_assoc]
    refine .word some_ all other ?_
    cases more with
    | nil => exact ends
    | cons c more => exact ends'

theorem before (opens : Opens line) : Before (fun c => !endsAtom c) line := by
  intro c member
  cases opens with
  | parenthesis more =>
    obtain rfl := Option.some.inj member
    rfl
  | @word word more some_ all _ _ =>
    cases word with
    | nil => exact absurd rfl some_
    | cons d word =>
      obtain rfl := Option.some.inj member
      simp [endsAtom, List.all_eq_true.mp all d List.mem_cons_self]

private theorem after?_mark (opens : Opens line) {text : String}
    (mark : text.toList.head?.any endsAtom = true) : after? text line = none :=
  opens.before.after?_eq_none (by simpa using mark)

private theorem after?_not (opens : Opens line) : after? "not " line = none := by
  cases found : after? "not " line with
  | none => rfl
  | some rest =>
    exfalso
    cases opens with
    | parenthesis more => cases found
    | word some_ all other ends =>
      exact other (of_after?_word all ends found (by rfl : _ = _ ++ [' ']) (by decide) rfl).1

private theorem choose_signs (opens : Opens line) : choose signs line = none := by
  have minus : after? "-" line = none := opens.after?_mark rfl
  have plus : after? "+" line = none := opens.after?_mark rfl
  have bitInvert : after? "~" line = none := opens.after?_mark rfl
  simp only [signs, choose, minus, plus, bitInvert, opens.after?_not]

private theorem choose_operators (opens : Opens line) (op : Operator) :
    choose operators (op.text.toList ++ (" ".toList ++ line)) = some (op, line) := by
  rcases op with op | op | op
  · cases op <;> rfl
  · cases op <;> rfl
  · cases op with
    | is =>
      -- Behind `is` no `not` can come, as the second operand begins with another word.
      have alone : after? "is not "
          ((Operator.comparison .is).text.toList ++ (" ".toList ++ line)) = none :=
        opens.after?_not
      rw [operators, choose, alone]
      rfl
    | _ => rfl

end Opens

private theorem letters_of_isName {text : String} (named : isName text = true) :
    text.toList ≠ [] ∧ text.toList.all mayContinue = true := by
  have identifier := (isName_iff.mp named).1
  refine ⟨?_, List.all_eq_true.mpr (Text.Identifier.mayContinue_of_isIdentifier identifier)⟩
  intro empty
  rw [empty] at identifier
  cases identifier

private theorem ne_keyword_of_isName {text keyword : String} (named : isName text = true)
    (listed : keyword ∈ Token.keywords) : text.toList ≠ keyword.toList := by
  intro same
  have noKeyword := (isName_iff.mp named).2
  rw [String.toList_inj.mp same] at noKeyword
  exact noKeyword listed

private theorem opens_name {text : String} (named : isName text = true) {more : List Char}
    (ends : Before endsWord more) : Opens (text.toList ++ more) := by
  obtain ⟨some_, all⟩ := letters_of_isName named
  exact .word some_ all (ne_keyword_of_isName named (by decide)) ends

private theorem opens_word {text : String} {word : List Char} (letters : text.toList = word)
    (some_ : word ≠ []) (all : word.all mayContinue = true) (other : word ≠ "not".toList) :
    Opens text.toList := by
  have opens := Opens.word some_ all other (before_nil endsWord)
  rwa [List.append_nil, ← letters] at opens

private theorem before_access (taken : Access) (rest : List Char) :
    Before endsAtom (taken.text.toList ++ rest) := by
  cases taken with
  | member name named =>
    rw [Access.text, String.toList_append, List.append_assoc]
    exact before_append _ (by rfl)
  | subscript items some_ =>
    rw [Access.text, String.append_assoc, String.toList_append, List.append_assoc]
    exact before_append _ (by rfl)

theorem opens_of_legible {base : Expr → Prop} {node : Expr} (legible : Legible base node) :
    Opens node.render.toList := by
  have parenthesised (text : String) : Opens ("(" ++ text).toList := by
    rw [String.toList_append]
    exact .parenthesis _
  induction legible with
  | @name text named _ =>
    have opens := opens_name named (before_nil endsWord)
    rwa [List.append_nil] at opens
  | truth value => cases value <;> exact opens_word rfl (by decide) (by decide) (by decide)
  | nothing => exact opens_word rfl (by decide) (by decide) (by decide)
  | number n =>
    have digit (c : Char) (member : c ∈ digits n) := isDigit_of_mem_digits member
    refine opens_word (toList_toString n) (digits_ne_nil n)
      (List.all_eq_true.mpr fun c member => mayContinue_of_isDigit (digit c member)) fun same => ?_
    have letter := digit 'n' (by rw [same]; decide)
    cases letter
  | operation op =>
    rw [Reading.render_operation, String.append_assoc]
    exact parenthesised _
  | unary op =>
    rw [Reading.render_unary, String.append_assoc]
    exact parenthesised _
  | chain many =>
    rw [Reading.render_chain _ (by rintro rfl; simp at many), String.append_assoc]
    exact parenthesised _
  | @call callee args names legible legibles =>
    rw [Legible.render_call legible legibles, calleeText]
    cases symbol : callee.symbolName? with
    | none =>
      simp only [Option.getD_none, String.append_assoc]
      exact parenthesised _
    | some text =>
      obtain ⟨-, named, -⟩ := legible.of_symbolName? symbol
      simp only [Option.getD_some, String.append_assoc, String.toList_append]
      exact opens_name named (before_append _ (by rfl))
  | access taken _ _ _ inner =>
    have ends := (before_access taken []).mono endsWord_of_endsAtom
    rw [List.append_nil] at ends
    rw [taken.render_of, String.toList_append]
    exact inner.append ends
  | conditional =>
    rw [Reading.render_conditional]
    simp only [String.append_assoc, String.toList_append]
    exact @Opens.word "if".toList (" (".toList ++ _) (by decide) (by decide) (by decide)
      (before_append _ (by rfl))
  | function _ _ legible =>
    rw [Reading.render_function _ legible.solid]
    simp only [String.append_assoc, String.toList_append]
    exact @Opens.word "function".toList ("(".toList ++ _) (by decide) (by decide) (by decide)
      (before_append _ (by rfl))

/-- A decoder gives a tree back from its line, whatever ends it. -/
def Decodes (operand : Decoder Expr) (node : Expr) : Prop :=
  ∀ rest, Before endsForm rest → operand (node.render.toList ++ rest) = some (node, rest)

structure Part (operand : Decoder Expr) (node : Expr) : Prop where
  decodes : Decodes operand node
  opens : Opens node.render.toList

/-- A form gives a tree back from its line, with the accesses that stand behind it. -/
def Extends (operand : Decoder Expr) (node : Expr) : Prop :=
  ∀ rest, Before endsAtom rest → ∃ steps, rest.length ≤ steps ∧
    form operand (node.render.toList ++ rest) = accesses operand steps node rest

section Lists

variable {α : Type} {item : Decoder α} {textOf : α → String} {close : String}

private theorem length_le_joinCommas (texts : List String) :
    texts.length ≤ (join ", " texts).toList.length + 1 := by
  rw [toList_joinCommas]
  induction texts with
  | nil => simp
  | cons text more ih =>
    cases more with
    | nil => simp
    | cons next more =>
      rw [List.map_cons, List.map_cons, List.intercalate_cons_cons, List.length_append,
        List.length_append, List.length_cons]
      rw [List.map_cons] at ih
      simp only [List.length_cons, List.length_nil] at ih ⊢
      omega

private theorem toList_joinCommas_cons (first next : String) (more : List String) :
    (join ", " (first :: next :: more)).toList =
      first.toList ++ (", ".toList ++ (join ", " (next :: more)).toList) := by
  simp [toList_joinCommas]

private theorem opens_joinCommas {values : List α} (some_ : values ≠ [])
    (opens : ∀ value ∈ values, Opens (textOf value).toList) :
    Opens (join ", " (values.map textOf)).toList := by
  cases values with
  | nil => exact absurd rfl some_
  | cons value more =>
    have first := opens value List.mem_cons_self
    cases more with
    | nil => simpa [toList_joinCommas] using first
    | cons next others =>
      rw [List.map_cons, List.map_cons, toList_joinCommas_cons]
      exact first.append (before_append _ (by rfl))

private theorem items_run (closing : close = ")" ∨ close =
    "]") {values : List α} (some_ : values ≠ [])
    (reads : ∀ value ∈ values, ∀ rest, Before endsItem rest →
      item ((textOf value).toList ++ rest) = some (value, rest)) (rest : List Char) {fuel : Nat}
    (enough : values.length ≤ fuel) :
    items close item fuel ((join ", " (values.map textOf)).toList ++ (close.toList ++ rest)) =
      some (values, rest) := by
  have ends : Before endsItem (close.toList ++ rest) :=
    before_append rest (by rcases closing with rfl | rfl <;> rfl)
  have noComma : after? ", " (close.toList ++ rest) = none := by
    rcases closing with rfl | rfl <;> rfl
  induction values generalizing fuel with
  | nil => exact absurd rfl some_
  | cons value more ih =>
    obtain ⟨fuel, rfl⟩ : ∃ less, fuel = less + 1 := by
      rw [List.length_cons] at enough
      exact ⟨fuel - 1, by omega⟩
    have first := reads value List.mem_cons_self
    cases more with
    | nil =>
      have text : (join ", " ([value].map textOf)).toList = (textOf value).toList := by
        simp [toList_joinCommas]
      rw [text, items, first _ ends]
      simp only [Option.bind_eq_bind, Option.bind_some, noComma, after?_append]
    | cons next others =>
      have fewer : (next :: others).length ≤ fuel := Nat.le_of_succ_le_succ enough
      have later := ih (by simp) (fun v member => reads v (List.mem_cons_of_mem _ member)) fewer
      rw [List.map_cons, List.map_cons, toList_joinCommas_cons, List.append_assoc,
        List.append_assoc, items, first _ (before_append _ (by rfl)), ← List.map_cons]
      simp only [Option.bind_eq_bind, Option.bind_some, after?_append, later]

private theorem listing_run (closing : close = ")" ∨ close = "]") {values : List α}
    (reads : ∀ value ∈ values, ∀ rest, Before endsItem rest →
      item ((textOf value).toList ++ rest) = some (value, rest))
    (opens : ∀ value ∈ values, Opens (textOf value).toList) (rest : List Char) :
    listing close item ((join ", " (values.map textOf)).toList ++ (close.toList ++ rest)) =
      some (values, rest) := by
  rw [listing]
  by_cases some_ : values = []
  · have text : (join ", " (values.map textOf)).toList = [] := by
      simp [toList_joinCommas, some_]
    rw [text, List.nil_append, after?_append, some_]
  · have ends : Before endsWord (close.toList ++ rest) :=
      before_append rest (by rcases closing with rfl | rfl <;> rfl)
    have unclosed := ((opens_joinCommas some_ opens).append ends).after?_mark
      (by rcases closing with rfl | rfl <;> rfl : close.toList.head?.any endsAtom = true)
    have enough : values.length ≤
        ((join ", " (values.map textOf)).toList ++ (close.toList ++ rest)).length := by
      have long := length_le_joinCommas (values.map textOf)
      have solid : 1 ≤ close.toList.length := by rcases closing with rfl | rfl <;> decide
      rw [List.length_map] at long
      rw [List.length_append, List.length_append]
      omega
    rw [unclosed]
    exact items_run closing some_ reads rest enough

end Lists

section Parts

variable {operand : Decoder Expr} {rest : List Char}

theorem argument_run {name : Option String} {value : Expr} (decodes : Decodes operand value)
    (names : ∀ text ∈ name, Decodes operand (Reading.symbol text)) (ends : Before endsItem rest) :
    argument operand ((named name value.render).toList ++ rest) = some ((name, value), rest) := by
  have plain := decodes rest (ends.mono endsForm_of_endsItem)
  cases name with
  | none =>
    have noName : after? " = " rest = none := ends.after?_eq_none rfl
    rw [named, argument, plain]
    simp only [Option.bind_eq_bind, Option.bind_some, noName]
  | some text =>
    -- The name is read as a variable first; the sign behind it tells what it is.
    have name : operand (text.toList ++ (" = ".toList ++ (value.render.toList ++ rest))) =
        some (Reading.symbol text, " = ".toList ++ (value.render.toList ++ rest)) :=
      names text rfl _ (before_append _ rfl)
    rw [named, String.toList_append, String.toList_append, List.append_assoc, List.append_assoc,
      argument, name]
    simp only [Option.bind_eq_bind, Option.bind_some, after?_append, plain]
    rfl

private theorem parameter_run {name : String} (isNamed : isName name = true) {default : Option Expr}
    (decodes : ∀ node ∈ default, Decodes operand node) (ends : Before endsItem rest) :
    parameter operand ((parameterText (name, default)).toList ++ rest) =
      some ((name, default), rest) := by
  have all := (letters_of_isName isNamed).2
  have ends' := ends.mono endsForm_of_endsItem
  cases default with
  | none =>
    obtain ⟨taken, left⟩ := split_word all
      (ends'.mono endsWord_of_endsForm)
    have noDefault : after? " = " rest = none := ends.after?_eq_none rfl
    rw [parameterText, parameter]
    simp only [taken, left, noDefault, String.ofList_toList]
  | some node =>
    have value := decodes node rfl rest ends'
    obtain ⟨taken, left⟩ := split_word all
      (@before_append endsWord " = " (node.render.toList ++ rest) rfl)
    rw [parameterText, String.toList_append, String.toList_append, List.append_assoc,
      List.append_assoc, parameter]
    simp only [taken, left, after?_append, value, String.ofList_toList, Option.bind_eq_bind,
      Option.bind_some]

def linksText (list : List (Operator × Expr)) : List Char :=
  list.flatMap fun link =>
    " ".toList ++ (link.1.text.toList ++ (" ".toList ++ link.2.render.toList))

private theorem length_le_linksText (list : List (Operator × Expr)) :
    list.length ≤ (linksText list).length := by
  induction list with
  | nil => exact Nat.zero_le _
  | cons link more ih =>
    have text : linksText (link :: more) = ' ' :: (link.1.text.toList ++
        (" ".toList ++ link.2.render.toList) ++ linksText more) := rfl
    rw [text, List.length_cons, List.length_cons, List.length_append]
    omega

private theorem links_run {list : List (Operator × Expr)}
    (parts : ∀ link ∈ list, Part operand link.2) (rest : List Char) {fuel : Nat}
    (enough : list.length < fuel) :
    links operand fuel (linksText list ++ (")".toList ++ rest)) = some (list, rest) := by
  induction list generalizing fuel with
  | nil =>
    cases fuel with
    | zero => cases enough
    | succ fuel => rw [linksText, List.flatMap_nil, List.nil_append, links, after?_append]
  | cons link more ih =>
    obtain ⟨op, node⟩ := link
    cases fuel with
    | zero => cases enough
    | succ fuel =>
      have later := ih (fun link member => parts link (List.mem_cons_of_mem _ member))
        (Nat.lt_of_succ_lt_succ enough)
      have ends : Before endsForm (linksText more ++ (")".toList ++ rest)) := by
        cases more with
        | nil => exact before_append _ rfl
        | cons next others =>
          rw [linksText, List.flatMap_cons, List.append_assoc, List.append_assoc]
          exact before_append _ rfl
      have part := parts _ List.mem_cons_self
      have text : linksText ((op, node) :: more) ++ (")".toList ++ rest) =
          " ".toList ++ (op.text.toList ++ (" ".toList ++
            (node.render.toList ++ (linksText more ++ (")".toList ++ rest))))) := by
        simp only [linksText, List.flatMap_cons, List.append_assoc]
      have chosen := (part.opens.append
        (ends.mono endsWord_of_endsForm)).choose_operators op
      have unclosed (line : List Char) : after? ")" (" ".toList ++ line) = none := rfl
      rw [text, links, unclosed, after?_append]
      simp only [Option.bind_eq_bind, Option.bind_some, chosen, part.decodes _ ends, later]

end Parts

section Forms

variable {operand : Decoder Expr} {node : Expr}

private theorem accesses_stop {rest : List Char} (ends : Before endsForm rest) (steps : Nat)
    (value : Expr) : accesses operand steps value rest = some (value, rest) := by
  have noPoint : after? "." rest = none := ends.after?_eq_none rfl
  have noBracket : after? "[" rest = none := ends.after?_eq_none rfl
  cases steps with
  | zero => rfl
  | succ steps => rw [accesses, noPoint, noBracket]

theorem Extends.decodes (extends_ : Extends operand node) : Decodes (form operand) node := by
  intro rest ends
  obtain ⟨steps, -, formed⟩ := extends_ rest (ends.mono endsAtom_of_endsForm)
  rw [formed, accesses_stop ends]

private theorem form_of_start {line rest : List Char} (noIf : after? "if (" line = none)
    (noFunction : after? "function(" line = none)
    (started : start operand line = some (node, rest)) :
    form operand line = accesses operand rest.length node rest := by
  rw [form, noIf, noFunction, started]
  rfl

private theorem extends_of_enclosed {inner : List Char}
    (text : node.render.toList = "(".toList ++ inner)
    (reads : ∀ rest, enclosed operand (inner ++ rest) = some (node, rest)) :
    Extends operand node := by
  intro rest _
  refine ⟨rest.length, Nat.le_refl _, ?_⟩
  rw [text, List.append_assoc]
  refine form_of_start rfl rfl ?_
  rw [start, after?_append]
  exact reads rest

theorem extends_unary (op : UnaryOp) {a : Expr} (decodes : Decodes operand a) :
    Extends operand (Reading.call op.text [a]) := by
  have text : (Reading.call op.text [a]).render.toList =
      "(".toList ++ (op.sign.toList ++ (a.render.toList ++ ")".toList)) := by
    rw [Reading.render_unary]
    simp only [String.toList_append, List.append_assoc]
  refine extends_of_enclosed text fun rest => ?_
  have signed (line : List Char) : choose signs (op.sign.toList ++ line) = some (op, line) := by
    cases op <;> rfl
  have inner := decodes (")".toList ++ rest) (before_append _ rfl)
  simp only [List.append_assoc, enclosed, signed, inner, after?_append, Option.bind_eq_bind,
    Option.bind_some]

theorem extends_joined {first : Expr} {list : List (Operator × Expr)} (some_ : list ≠ [])
    (part : Part operand first) (parts : ∀ link ∈ list, Part operand link.2)
    (text : (joined first list).render.toList =
      "(".toList ++ (first.render.toList ++ (linksText list ++ ")".toList))) :
    Extends operand (joined first list) := by
  refine extends_of_enclosed text fun rest => ?_
  have ends : Before (· == ' ') (linksText list ++ (")".toList ++ rest)) := by
    cases list with
    | nil => exact absurd rfl some_
    | cons link more =>
      rw [linksText, List.flatMap_cons, List.append_assoc, List.append_assoc]
      exact before_append _ rfl
  have ends' : Before endsForm (linksText list ++ (")".toList ++ rest)) :=
    ends.mono fun c space => by
      obtain rfl := eq_of_beq space
      rfl
  have unsigned := (part.opens.append
    (ends'.mono endsWord_of_endsForm)).choose_signs
  have uncalled : after? ")(" (linksText list ++ (")".toList ++ rest)) = none :=
    ends.after?_eq_none rfl
  have enough : list.length < (linksText list ++ (")".toList ++ rest)).length := by
    have long := length_le_linksText list
    rw [List.length_append, List.length_append, show ")".toList.length = 1 from rfl]
    omega
  simp only [List.append_assoc, enclosed, unsigned, part.decodes _ ends', uncalled,
    links_run parts rest enough, Option.bind_eq_bind, Option.bind_some]

theorem arguments_run {args : List (Option String × Expr)} (parts : ∀ a ∈ args, Part operand a.2)
    (names : ∀ a ∈ args, ∀ name ∈ a.1, isName name = true)
    (known : ∀ name, isName name = true → Decodes operand (Reading.symbol name))
    (rest : List Char) :
    listing ")" (argument operand)
        ((join ", " (argumentTexts args)).toList ++ (")".toList ++ rest)) = some (args, rest) := by
  refine listing_run (Or.inl rfl) (fun a member rest ends => ?_) (fun a member => ?_) rest
  · exact argument_run (parts a member).decodes
      (fun name same => known name (names a member name same)) ends
  · have opens := (parts a member).opens
    cases name : a.1 with
    | none => exact opens
    | some text =>
      rw [named, String.append_assoc, String.toList_append, String.toList_append]
      exact opens_name (names a member text name) (before_append _ rfl)

theorem extends_call_other {callee : Expr} {args : List (Option String × Expr)}
    (part : Part operand callee) (parts : ∀ a ∈ args, Part operand a.2)
    (names : ∀ a ∈ args, ∀ name ∈ a.1, isName name = true)
    (known : ∀ name, isName name = true → Decodes operand (Reading.symbol name))
    (text : Node.render (.call 0 callee args) =
      "(" ++ callee.render ++ ")" ++ "(" ++ join ", " (argumentTexts args) ++ ")") :
    Extends operand (.call 0 callee args) := by
  have text' : (Node.render (.call 0 callee args)).toList = "(".toList ++ (callee.render.toList ++
      (")(".toList ++ ((join ", " (argumentTexts args)).toList ++ ")".toList))) := by
    rw [text]
    simp only [String.toList_append, List.append_assoc]
    rfl
  refine extends_of_enclosed text' fun rest => ?_
  have unsigned := (part.opens.append (@before_append endsWord ")("
    ((join ", " (argumentTexts args)).toList ++ (")".toList ++ rest)) rfl)).choose_signs
  have inner := part.decodes (")(".toList ++ ((join ", " (argumentTexts args)).toList ++
    (")".toList ++ rest))) (before_append _ rfl)
  simp only [List.append_assoc, enclosed, unsigned, inner, after?_append,
    arguments_run parts names known rest, Option.bind_eq_bind, Option.bind_some]

section Words

variable {word rest : List Char}

private theorem after?_parenthesis (some_ : word ≠ []) (all : word.all mayContinue = true) :
    after? "(" (word ++ rest) = none := by
  have before : Before mayContinue (word ++ rest) := by
    intro c member
    cases word with
    | nil => exact absurd rfl some_
    | cons d word =>
      obtain rfl := Option.some.inj member
      exact List.all_eq_true.mp all d List.mem_cons_self
  exact before.after?_eq_none rfl

private theorem after?_if (all : word.all mayContinue = true) (ends : Before endsWord rest)
    (other : word ≠ "if".toList) : after? "if (" (word ++ rest) = none := by
  cases found : after? "if (" (word ++ rest) with
  | none => rfl
  | some left =>
    exact absurd (of_after?_word all ends found (by rfl : _ = _ ++ " (".toList) (by decide) rfl).1
      other

private theorem after?_function (all : word.all mayContinue = true) (ends : Before endsWord rest)
    (other : word ≠ "function".toList ∨ Before endsAtom rest) :
    after? "function(" (word ++ rest) = none := by
  cases found : after? "function(" (word ++ rest) with
  | none => rfl
  | some left =>
    obtain ⟨same, rfl⟩ := of_after?_word all ends found
      (by rfl : _ = "function".toList ++ "(".toList) (by decide) rfl
    rcases other with other | ends
    · exact absurd same other
    · exact absurd (ends '(' rfl) (by decide)

theorem extends_word (letters : node.render.toList = word) (some_ : word ≠ [])
    (all : word.all mayContinue = true) (other : word ≠ "if".toList)
    (means : atom word = node) : Extends operand node := by
  intro rest ends
  have ends' := ends.mono endsWord_of_endsAtom
  obtain ⟨taken, left⟩ := split_word all ends'
  have uncalled : after? "(" rest = none := ends.after?_eq_none rfl
  refine ⟨rest.length, Nat.le_refl _, ?_⟩
  rw [letters]
  refine form_of_start (after?_if all ends' other) (after?_function all ends' (Or.inr ends)) ?_
  rw [start, after?_parenthesis some_ all]
  simp only [taken, left, uncalled, means]

end Words

theorem extends_name {text : String} (named : isName text = true) :
    Extends operand (Reading.symbol text) := by
  obtain ⟨some_, all⟩ := letters_of_isName named
  obtain ⟨c, more, letters, starts⟩ := Text.Identifier.isIdentifier_cases (isName_iff.mp named).1
  have noDigit : text.toList.head?.any Char.isDigit = false := by
    rw [letters]
    exact Text.Identifier.isDigit_of_isStart starts
  have means : atom text.toList = Reading.symbol text := by
    rw [atom, noDigit, if_neg Bool.false_ne_true, String.ofList_toList,
      Reading.nameExpr_of_isName named]
  exact extends_word rfl some_ all (ne_keyword_of_isName named (by decide)) means

theorem extends_number (n : Nat) : Extends operand (Reading.atomic (.int n)) := by
  have digit (c : Char) (member : c ∈ digits n) := isDigit_of_mem_digits member
  refine extends_word (toList_toString n) (digits_ne_nil n)
    (List.all_eq_true.mpr fun c member => mayContinue_of_isDigit (digit c member))
    (fun same => ?_) ?_
  · have letter := digit 'i' (by rw [same]; decide)
    cases letter
  · have first : ((digits n).head?.any Char.isDigit) = true := by
      cases letters : digits n with
      | nil => exact absurd letters (digits_ne_nil n)
      | cons c more => exact digit c (by rw [letters]; exact List.mem_cons_self)
    rw [atom, first, if_pos rfl, digitsValue_digits]

theorem extends_call_name {text : String} (isNamed : isName text = true)
    (other : text ≠ "function") {args : List (Option String × Expr)}
    (parts : ∀ a ∈ args, Part operand a.2) (names : ∀ a ∈ args, ∀ name ∈ a.1, isName name = true)
    (known : ∀ name, isName name = true → Decodes operand (Reading.symbol name))
    (rendered : Node.render (.call 0 (Reading.symbol text) args) =
      text ++ "(" ++ join ", " (argumentTexts args) ++ ")") :
    Extends operand (.call 0 (Reading.symbol text) args) := by
  obtain ⟨some_, all⟩ := letters_of_isName isNamed
  intro rest ends
  refine ⟨rest.length, Nat.le_refl _, ?_⟩
  have begins : Before endsWord ("(".toList ++ ((join ", " (argumentTexts args)).toList ++
      (")".toList ++ rest))) := before_append _ rfl
  obtain ⟨taken, left⟩ := split_word all begins
  rw [rendered]
  simp only [String.toList_append, List.append_assoc]
  refine form_of_start (after?_if all begins (ne_keyword_of_isName isNamed (by decide)))
    (after?_function all begins (Or.inl fun same => other (String.toList_inj.mp same))) ?_
  rw [start, after?_parenthesis some_ all]
  simp only [taken, left, after?_append, arguments_run parts names known rest,
    String.ofList_toList, Option.bind_eq_bind, Option.bind_some]

theorem Extends.access {value : Expr} (extends_ : Extends operand value) (taken : Access)
    (parts : ∀ item ∈ taken.items, Part operand item) : Extends operand (taken.of value) := by
  intro rest ends
  -- The loop that reads the value goes on with the access: a step of it, which takes a character.
  obtain ⟨steps, enough, formed⟩ := extends_ (taken.text.toList ++ rest) (before_access taken rest)
  rw [taken.render_of, String.toList_append, List.append_assoc, formed]
  cases taken with
  | member name named =>
    have all := (letters_of_isName named).2
    obtain ⟨found, left⟩ := split_word all (ends.mono endsWord_of_endsAtom)
    rw [Access.text, String.toList_append, List.append_assoc] at enough ⊢
    cases steps with
    | zero => cases enough
    | succ steps =>
      refine ⟨steps, ?_, ?_⟩
      · rw [List.length_append, List.length_append, show ".".toList.length = 1 from rfl] at enough
        omega
      · rw [accesses, after?_append]
        simp only [found, left, String.ofList_toList]
        rfl
  | subscript items some_ =>
    have inner := @listing_run _ operand Node.render "]" (Or.inr rfl) items
      (fun item member rest ends => (parts item member).decodes rest
        (ends.mono endsForm_of_endsItem)) (fun item member => (parts item member).opens) rest
    have noPoint (line : List Char) : after? "." ("[".toList ++ line) = none := rfl
    rw [Access.text, String.append_assoc, String.toList_append, String.toList_append,
      List.append_assoc, List.append_assoc] at enough ⊢
    cases steps with
    | zero => cases enough
    | succ steps =>
      refine ⟨steps, ?_, ?_⟩
      · rw [List.length_append, List.length_append, List.length_append,
          show "[".toList.length = 1 from rfl] at enough
        omega
      · rw [accesses, noPoint, after?_append]
        simp only [inner, Option.bind_eq_bind, Option.bind_some]
        rfl

theorem decodes_conditional {test body other : Expr} (first : Part operand test)
    (second : Part operand body) (third : Part operand other) :
    Decodes (form operand) (Reading.call "if" [test, body, other]) := by
  intro rest ends
  rw [Reading.render_conditional]
  simp only [String.toList_append, List.append_assoc]
  have testRead (line : List Char) := first.decodes (") ".toList ++ line) (before_append _ rfl)
  have bodyRead (line : List Char) := second.decodes (" else ".toList ++ line) (before_append _ rfl)
  rw [form, after?_append]
  simp only [testRead, bodyRead, third.decodes _ ends, after?_append, Option.bind_eq_bind,
    Option.bind_some]

theorem decodes_function {params : List (String × Option Expr)} {body : Expr}
    (names : ∀ p ∈ params, isName p.1 = true)
    (parts : ∀ p ∈ params, ∀ default ∈ p.2, Part operand default) (part : Part operand body)
    (solid : Solid body.render.toList) :
    Decodes (form operand) (Reading.call "function" [.pairlist 0 params, body]) := by
  intro rest ends
  have list := @listing_run _ (parameter operand) parameterText ")" (Or.inl rfl) params
    (fun p member rest ends => parameter_run (names p member)
      (fun node inside => (parts p member node inside).decodes) ends)
    (fun p member => ?_) (" ".toList ++ (body.render.toList ++ rest))
  · have noIf (line : List Char) : after? "if (" ("function(".toList ++ line) = none := rfl
    have text : ((Reading.call "function" [.pairlist 0 params, body]).render.toList ++ rest) =
        "function(".toList ++ ((join ", " (params.map parameterText)).toList ++
          (")".toList ++ (" ".toList ++ (body.render.toList ++ rest)))) := by
      rw [Reading.render_function _ solid, renderParams_eq]
      simp only [String.toList_append, List.append_assoc]
      rfl
    rw [text, form, noIf, after?_append]
    simp only [list, part.decodes rest ends, after?_append, Option.bind_eq_bind, Option.bind_some]
  · obtain ⟨name, default | default⟩ := p
    · have opens := opens_name (names _ member) (before_nil endsWord)
      rwa [List.append_nil] at opens
    · change Opens (name ++ " = " ++ default.render).toList
      rw [String.append_assoc, String.toList_append, String.toList_append]
      exact opens_name (names _ member) (before_append _ rfl)

end Forms

end TreePass.Line
